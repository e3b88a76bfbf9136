import SoundUnit.Memory.Ram

namespace SoundUnit

namespace Checked

/-- Written with operations that have a value only if it fits, a computation has a value exactly if none of its
operations fails. This one is for signed numbers of 32 bits. -/
def long (x : Int) : Option Int := if -2147483648 ≤ x ∧ x ≤ 2147483647 then some x else none

def below (bound x : Nat) : Option Nat := if x < bound then some x else none

def difference (x y : Nat) : Option Nat := if y ≤ x then some (x - y) else none

def quotient (x y : Nat) : Option Nat := if y = 0 then none else some (x / y)

def remainder (x y : Nat) : Option Nat := if y = 0 then none else some (x % y)

def byteBound : Nat := 256

def wordBound : Nat := 65536

def longBound : Nat := 4294967296

def sizeBound : Nat := 18446744073709551616

theorem long_of {x : Int} (h : -2147483648 ≤ x ∧ x ≤ 2147483647) : long x = some x := if_pos h

theorem below_of {bound x : Nat} (h : x < bound) : below bound x = some x := if_pos h

theorem difference_of {x y : Nat} (h : y ≤ x) : difference x y = some (x - y) := if_pos h

theorem difference_of_add {x y z : Nat} (h : y + z = x) : difference x y = some z := by
  rw [← h, difference_of (Nat.le_add_right ..), Nat.add_sub_cancel_left]

theorem quotient_of {x y : Nat} (h : y ≠ 0) : quotient x y = some (x / y) := if_neg h

theorem remainder_of {x y : Nat} (h : y ≠ 0) : remainder x y = some (x % y) := if_neg h

theorem mul_bounds {x y : Int} {a b : Nat} (hx : -a ≤ x ∧ x ≤ a) (hy : -b ≤ y ∧ y ≤ b) :
    -(a * b : Nat) ≤ x * y ∧ x * y ≤ (a * b : Nat) := by
  have hxa : x.natAbs ≤ a := by omega
  have hyb : y.natAbs ≤ b := by omega
  have h : (x * y).natAbs ≤ a * b := by
    rw [Int.natAbs_mul]
    exact Nat.mul_le_mul hxa hyb
  omega

/-- If no step of a fold fails, the fold does not. The steps may rely on what they keep. -/
theorem foldlM_of {σ α : Type} {f? : σ → α → Option σ} {f : σ → α → σ} {P : σ → Prop}
    (h : ∀ s a, P s → f? s a = some (f s a) ∧ P (f s a)) (l : List α) {s : σ} (hs : P s) :
    l.foldlM f? s = some (l.foldl f s) ∧ P (l.foldl f s) := by
  induction l generalizing s with
  | nil => exact ⟨rfl, hs⟩
  | cons a l ih =>
    obtain ⟨hf, hp⟩ := h s a hs
    rw [List.foldlM_cons, hf]
    exact ih hp

theorem ofFnM_of {α : Type} {n : Nat} {f? : Fin n → Option α} {f : Fin n → α} (h : ∀ i, f? i = some (f i)) :
    Vector.ofFnM f? = some (Vector.ofFn f) := by
  have he : f? = fun i ↦ pure (f i) := funext h
  rw [he]
  exact Vector.ofFnM_pure

theorem int8_bounds (x : Int8) : -128 ≤ x.toInt ∧ x.toInt ≤ 128 := by
  have := x.le_toInt
  have := x.toInt_lt
  omega

theorem int16_bounds (x : Int16) : -32768 ≤ x.toInt ∧ x.toInt ≤ 32767 := by
  have := x.le_toInt
  have := x.toInt_lt
  omega

theorem amplified_bounds {x : Int} (h : -32768 ≤ x ∧ x ≤ 32767) (volume : Int8) :
    -4194304 ≤ x * volume.toInt ∧ x * volume.toInt ≤ 4194304 := by
  have hv := int8_bounds volume
  exact mul_bounds (a := 32768) (b := 128) (by omega) (by omega)

end Checked

namespace Ram

def read? (ram : Ram) (addr : UInt16) : Option UInt8 := ram.bytes.data[addr.toNat]?

def write? (ram : Ram) (addr : UInt16) (data : UInt8) : Option Ram :=
  if addr.toNat < ram.bytes.size then some (ram.write addr data) else none

theorem read?_eq (ram : Ram) (addr : UInt16) : ram.read? addr = some (ram.read addr) :=
  Array.getElem?_eq_getElem (ram.toNat_lt_size addr)

theorem write?_eq (ram : Ram) (addr : UInt16) (data : UInt8) : ram.write? addr data = some (ram.write addr data) :=
  if_pos (ram.toNat_lt_size addr)

end Ram

end SoundUnit
