import SoundUnit.Proofs.Processor.CarryChains

namespace SoundUnit

open Arithmetic

/-- Both halves of the byte are decimal digits. -/
def PackedDecimal (b : UInt8) : Prop := b.toNat / 0x10 ≤ 9 ∧ b.toNat % 0x10 ≤ 9

instance (b : UInt8) : Decidable (PackedDecimal b) := inferInstanceAs (Decidable (_ ∧ _))

def decimalValue (b : UInt8) : Nat := 10 * (b.toNat / 0x10) + b.toNat % 0x10

/-- The number with the given pairs of decimal digits, the lowest pair first. -/
def decimal (bytes : List UInt8) : Nat := Nat.ofDigits 100 (bytes.map decimalValue)

theorem PackedDecimal.value_lt {b : UInt8} (h : PackedDecimal b) : decimalValue b < 100 := by
  unfold PackedDecimal at h
  unfold decimalValue
  omega

theorem lowDigit_lt (b : UInt8) : 9 < b &&& 0xF ↔ 9 < b.toNat % 0x10 := by
  rw [← toNat_low_half]
  exact UInt8.lt_iff_toNat_lt

theorem lowDigit_add (b : UInt8) : 9 < (b + 0x60) &&& 0xF ↔ 9 < b &&& 0xF := by
  simp only [lowDigit_lt, UInt8.toNat_add, UInt8.reduceToNat]
  omega

theorem lowDigit_sub (b : UInt8) : 9 < (b - 0x60) &&& 0xF ↔ 9 < b &&& 0xF := by
  simp only [lowDigit_lt, UInt8.toNat_sub, UInt8.reduceToNat]
  omega

namespace Arithmetic

variable (a : UInt8) (s : Status)

theorem decimalAdjustAdd_eq :
    let high := s.carry ∨ 0x99 < a
    let low := s.halfCarry ∨ 9 < a &&& 0xF
    (decimalAdjustAdd a s).1 = a + (if high then 0x60 else 0) + (if low then 6 else 0) ∧
      (decimalAdjustAdd a s).2.carry = decide high := by
  intro high low
  unfold decimalAdjustAdd
  dsimp only
  split
  next hc =>
    simp only [lowDigit_add, high, low, hc]
    constructor
    · split <;> simp
    · rfl
  next hc =>
    have hn : s.carry = false := by simpa using fun h ↦ hc (.inl h)
    simp only [high, low, hc]
    constructor
    · split <;> simp
    · exact hn

theorem decimalAdjustSubtract_eq :
    let high := ¬ s.carry ∨ 0x99 < a
    let low := ¬ s.halfCarry ∨ 9 < a &&& 0xF
    (decimalAdjustSubtract a s).1 = a - (if high then 0x60 else 0) - (if low then 6 else 0) ∧
      (decimalAdjustSubtract a s).2.carry = decide (¬ high) := by
  intro high low
  unfold decimalAdjustSubtract
  simp only [Bool.not_eq_true', ← Bool.not_eq_true]
  split
  next hc =>
    simp only [lowDigit_sub, high, low, hc]
    constructor
    · split <;> simp
    · rfl
  next hc =>
    have hn : s.carry = true := by simpa using fun h ↦ hc (.inl h)
    simp only [high, low, hc]
    constructor
    · split <;> simp
    · exact hn

variable {a s} {x y : UInt8}

theorem decimalAdd_value (t : Status) (hx : PackedDecimal x) (hy : PackedDecimal y)
    (hc : t.carry = (addCarry x y s).2.carry) (hh : t.halfCarry = (addCarry x y s).2.halfCarry) :
    PackedDecimal (decimalAdjustAdd (addCarry x y s).1 t).1 ∧
      decimalValue (decimalAdjustAdd (addCarry x y s).1 t).1 +
          100 * (decimalAdjustAdd (addCarry x y s).1 t).2.carry.toNat =
        decimalValue x + decimalValue y + s.carry.toNat := by
  have hs := s.carry.toNat_le
  have ha := toNat_addCarry x y s
  obtain ⟨hd, hcarry⟩ := decimalAdjustAdd_eq (addCarry x y s).1 t
  rw [hcarry, hd]
  rw [carry_addCarry] at hc
  rw [halfCarry_addCarry] at hh
  generalize (addCarry x y s).1 = a at *
  unfold PackedDecimal at *
  unfold decimalValue
  have high : t.carry ∨ 0x99 < a ↔ 0x99 < x.toNat + y.toNat + s.carry.toNat := by
    simp only [hc, decide_eq_true_eq, UInt8.lt_iff_toNat_lt, UInt8.reduceToNat]
    omega
  have low : t.halfCarry ∨ 9 < a &&& 0xF ↔ 9 < x.toNat % 0x10 + y.toNat % 0x10 + s.carry.toNat := by
    simp only [hh, decide_eq_true_eq, lowDigit_lt]
    omega
  simp only [high, low]
  split <;> split <;>
    simp only [*, UInt8.toNat_add, UInt8.reduceToNat, decide_true, decide_false, Bool.toNat_true,
      Bool.toNat_false] <;>
    omega

theorem decimalSubtract_value (t : Status) (hx : PackedDecimal x) (hy : PackedDecimal y)
    (hc : t.carry = (addCarry x (~~~y) s).2.carry) (hh : t.halfCarry = (addCarry x (~~~y) s).2.halfCarry) :
    PackedDecimal (decimalAdjustSubtract (addCarry x (~~~y) s).1 t).1 ∧
      decimalValue (decimalAdjustSubtract (addCarry x (~~~y) s).1 t).1 +
          100 * (decimalAdjustSubtract (addCarry x (~~~y) s).1 t).2.carry.toNat =
        decimalValue x + (100 - 1 - decimalValue y) + s.carry.toNat := by
  have hs := s.carry.toNat_le
  have hb := y.toNat_lt
  have hn : (~~~y).toNat = 0xFF - y.toNat := UInt8.toNat_not y
  have ha := toNat_addCarry x (~~~y) s
  obtain ⟨hd, hcarry⟩ := decimalAdjustSubtract_eq (addCarry x (~~~y) s).1 t
  rw [hcarry, hd]
  rw [carry_addCarry] at hc
  rw [halfCarry_addCarry] at hh
  generalize (addCarry x (~~~y) s).1 = a at *
  rw [hn] at ha hc hh
  unfold PackedDecimal at *
  unfold decimalValue
  have high : ¬ t.carry ∨ 0x99 < a ↔ x.toNat + s.carry.toNat ≤ y.toNat := by
    simp only [hc, decide_eq_true_eq, UInt8.lt_iff_toNat_lt, UInt8.reduceToNat]
    omega
  have low : ¬ t.halfCarry ∨ 9 < a &&& 0xF ↔ x.toNat % 0x10 + s.carry.toNat ≤ y.toNat % 0x10 := by
    simp only [hh, decide_eq_true_eq, lowDigit_lt]
    omega
  simp only [high, low]
  split <;> split <;>
    simp only [*, UInt8.toNat_sub, UInt8.reduceToNat, decide_true, decide_false, not_true, not_false_eq_true,
      Bool.toNat_true, Bool.toNat_false] <;>
    omega

end Arithmetic

/-- An operation makes a byte of the digits `x`, and some state that has this byte in A, with the carry and the half
carry that the operation has left, executes the opcode of an adjustment. That leaves `d` in A and the flags `t`. -/
def BinaryOp.Adjusted (op : BinaryOp) (adjustment : UInt8) (s : Status) (x : UInt8 × UInt8) (d : UInt8)
    (t : Status) : Prop :=
  ∃ (a : UInt8) (u : Status) (c : Core), op.Performs s x a u ∧ c.registers.a = a ∧
    c.registers.status.carry = u.carry ∧ c.registers.status.halfCarry = u.halfCarry ∧
    (c.dispatch adjustment).2.registers.a = d ∧ (c.dispatch adjustment).2.registers.status = t

namespace Core

variable (c : Core)

theorem dispatch_decimalAdjustAdd :
    (c.dispatch 0xDF).2.registers = { c.registers with
      a := (decimalAdjustAdd c.registers.a c.registers.status).1
      status := (decimalAdjustAdd c.registers.a c.registers.status).2 } :=
  rfl

theorem dispatch_decimalAdjustSubtract :
    (c.dispatch 0xBE).2.registers = { c.registers with
      a := (decimalAdjustSubtract c.registers.a c.registers.status).1
      status := (decimalAdjustSubtract c.registers.a c.registers.status).2 } :=
  rfl

end Core

namespace BinaryOp

variable {s t : Status} {x : UInt8 × UInt8} {d : UInt8}

theorem exists_adjusted {op : BinaryOp} (adjustment : UInt8) (h : ∃ a u, op.Performs s x a u) :
    ∃ d t, op.Adjusted adjustment s x d t := by
  obtain ⟨a, u, h⟩ := h
  exact ⟨_, _, a, u, Grid.facing u a 0, h, rfl, rfl, rfl, rfl, rfl⟩

theorem adjusted_add (hx : PackedDecimal x.1 ∧ PackedDecimal x.2) (h : add.Adjusted 0xDF s x d t) :
    PackedDecimal d ∧ decimalValue d + 100 * t.carry.toNat = decimalValue x.1 + decimalValue x.2 + s.carry.toNat := by
  obtain ⟨a, u, c, hp, ha, hc, hh, rfl, rfl⟩ := h
  obtain ⟨rfl, rfl⟩ := (performs_add ..).1 hp
  rw [c.dispatch_decimalAdjustAdd, ha]
  exact decimalAdd_value c.registers.status hx.1 hx.2 hc hh

theorem adjusted_subtract (hx : PackedDecimal x.1 ∧ PackedDecimal x.2) (h : subtract.Adjusted 0xBE s x d t) :
    PackedDecimal d ∧
      decimalValue d + 100 * t.carry.toNat =
        decimalValue x.1 + (100 - 1 - decimalValue x.2) + s.carry.toNat := by
  obtain ⟨a, u, c, hp, ha, hc, hh, rfl, rfl⟩ := h
  obtain ⟨rfl, rfl⟩ := (performs_subtract ..).1 hp
  rw [c.dispatch_decimalAdjustSubtract, ha]
  exact decimalSubtract_value c.registers.status hx.1 hx.2 hc hh

end BinaryOp

structure DecimalSumOf (a b : List UInt8) (c : Bool) (d : List UInt8) (t : Status) : Prop where
  length_eq : d.length = a.length
  packed : ∀ x ∈ d, PackedDecimal x
  value_eq : decimal d = (decimal a + decimal b + c.toNat) % 100 ^ a.length
  carry_eq : t.carry = decide (100 ^ a.length ≤ decimal a + decimal b + c.toNat)

structure DecimalDifferenceOf (a b : List UInt8) (c : Bool) (d : List UInt8) (t : Status) : Prop where
  length_eq : d.length = a.length
  packed : ∀ x ∈ d, PackedDecimal x
  value_eq : (decimal d : Int) = (decimal a - decimal b - (1 - c.toNat)) % 100 ^ a.length
  carry_eq : t.carry = decide (decimal b + (1 - c.toNat) ≤ decimal a)

theorem decimal_lt {bytes : List UInt8} (h : ∀ x ∈ bytes, PackedDecimal x) : decimal bytes < 100 ^ bytes.length :=
  ofDigits_map_lt (by decide) fun x hx ↦ (h x hx).value_lt

theorem decimal_map {α : Type} (f : α → UInt8) (l : List α) :
    decimal (l.map f) = Nat.ofDigits 100 (l.map fun x ↦ decimalValue (f x)) := by
  rw [decimal, List.map_map]
  rfl

namespace Chain

variable {s t : Status} {l : List (UInt8 × UInt8)} {d : List UInt8}

theorem decimalSumOf (hl : ∀ x ∈ l, PackedDecimal x.1 ∧ PackedDecimal x.2)
    (h : Chain (BinaryOp.add.Adjusted 0xDF) s l d t) :
    DecimalSumOf (l.map Prod.fst) (l.map Prod.snd) s.carry d t := by
  have packed : ∀ x ∈ d, PackedDecimal x :=
    h.forall_digits fun s x hx d t h ↦ (BinaryOp.adjusted_add (hl x hx) h).1
  have hv : decimal d + 100 ^ l.length * t.carry.toNat =
      Nat.ofDigits 100 (l.map fun x ↦ decimalValue x.1 + decimalValue x.2) + s.carry.toNat :=
    h.ofDigits_eq fun s x hx d t h ↦ (BinaryOp.adjusted_add (hl x hx) h).2
  rw [ofDigits_map_add, ← decimal_map, ← decimal_map] at hv
  obtain ⟨hv, hc⟩ := eq_mod_of_carry hv (h.length_eq ▸ decimal_lt packed)
  rw [← List.length_map Prod.fst] at hv hc
  exact ⟨h.length_eq.trans (List.length_map _).symm, packed, hv, hc⟩

theorem decimalDifferenceOf (hl : ∀ x ∈ l, PackedDecimal x.1 ∧ PackedDecimal x.2)
    (h : Chain (BinaryOp.subtract.Adjusted 0xBE) s l d t) :
    DecimalDifferenceOf (l.map Prod.fst) (l.map Prod.snd) s.carry d t := by
  have packed : ∀ x ∈ d, PackedDecimal x :=
    h.forall_digits fun s x hx d t h ↦ (BinaryOp.adjusted_subtract (hl x hx) h).1
  have hv : decimal d + 100 ^ l.length * t.carry.toNat =
      Nat.ofDigits 100 (l.map fun x ↦ decimalValue x.1 + (100 - 1 - decimalValue x.2)) + s.carry.toNat :=
    h.ofDigits_eq fun s x hx d t h ↦ (BinaryOp.adjusted_subtract (hl x hx) h).2
  have hcomplement :=
    ofDigits_complement 100 (fun x : UInt8 × UInt8 ↦ decimalValue x.2) l fun x hx ↦ (hl x hx).2.value_lt
  rw [ofDigits_map_add, ← decimal_map] at hv
  rw [← decimal_map] at hcomplement
  have hb : decimal d + 100 ^ l.length * t.carry.toNat + decimal (l.map Prod.snd) + 1 =
      decimal (l.map Prod.fst) + 100 ^ l.length + s.carry.toNat := by
    omega
  obtain ⟨hv, hc⟩ := eq_emod_of_borrow hb (h.length_eq ▸ decimal_lt packed)
  rw [← List.length_map Prod.fst] at hv
  refine ⟨h.length_eq.trans (List.length_map _).symm, packed, ?_, hc⟩
  rw [hv]
  norm_cast

end Chain

/-- Numbers of any length in packed decimal form are added and subtracted byte by byte from the low end, each byte with
its adjustment. All bytes that are made are packed decimal again, and the carry is that of the whole operation. -/
theorem decimal_chains (s : Status) (l : List (UInt8 × UInt8)) (hl : ∀ x ∈ l, PackedDecimal x.1 ∧ PackedDecimal x.2) :
    Chain.Makes (BinaryOp.add.Adjusted 0xDF) s l (DecimalSumOf (l.map Prod.fst) (l.map Prod.snd) s.carry) ∧
      Chain.Makes (BinaryOp.subtract.Adjusted 0xBE) s l
        (DecimalDifferenceOf (l.map Prod.fst) (l.map Prod.snd) s.carry) := by
  refine ⟨⟨?_, fun d t h ↦ h.decimalSumOf hl⟩, ?_, fun d t h ↦ h.decimalDifferenceOf hl⟩
  · refine Chain.exists_of_total (fun s x ↦ ?_) s l
    exact BinaryOp.exists_adjusted 0xDF ⟨_, _, (BinaryOp.performs_add ..).2 ⟨rfl, rfl⟩⟩
  · refine Chain.exists_of_total (fun s x ↦ ?_) s l
    exact BinaryOp.exists_adjusted 0xBE ⟨_, _, (BinaryOp.performs_subtract ..).2 ⟨rfl, rfl⟩⟩

/-- 2758 + 7946 and 112 - 113, with four digits each. -/
theorem decimal_chains_fourDigits :
    let l : List (UInt8 × UInt8) := [(0x58, 0x46), (0x27, 0x79)]
    let l' : List (UInt8 × UInt8) := [(0x12, 0x13), (0x01, 0x01)]
    (∀ x ∈ l ++ l', PackedDecimal x.1 ∧ PackedDecimal x.2) ∧
      (∃ d t, Chain (BinaryOp.add.Adjusted 0xDF) {} l d t ∧ decimal d = 704 ∧ t.carry = true) ∧
      ∃ d t, Chain (BinaryOp.subtract.Adjusted 0xBE) { carry := true } l' d t ∧ decimal d = 9999 ∧
        t.carry = false := by
  intro l l'
  have hl : ∀ x ∈ l, PackedDecimal x.1 ∧ PackedDecimal x.2 := by simp [l, PackedDecimal]
  have hl' : ∀ x ∈ l', PackedDecimal x.1 ∧ PackedDecimal x.2 := by simp [l', PackedDecimal]
  obtain ⟨⟨⟨d, t, h⟩, hs⟩, -⟩ := decimal_chains {} l hl
  obtain ⟨-, ⟨d', t', h'⟩, hs'⟩ := decimal_chains { carry := true } l' hl'
  refine ⟨List.forall_mem_append.2 ⟨hl, hl'⟩, ⟨d, t, h, ?_, ?_⟩, d', t', h', ?_, ?_⟩
  · simpa [l, decimal, decimalValue, Nat.ofDigits_cons] using (hs d t h).value_eq
  · simpa [l, decimal, decimalValue, Nat.ofDigits_cons] using (hs d t h).carry_eq
  · have hv : (decimal d' : Int) = 9999 := by
      simpa [l', decimal, decimalValue, Nat.ofDigits_cons] using (hs' d' t' h').value_eq
    exact_mod_cast hv
  · simpa [l', decimal, decimalValue, Nat.ofDigits_cons] using (hs' d' t' h').carry_eq

end SoundUnit
