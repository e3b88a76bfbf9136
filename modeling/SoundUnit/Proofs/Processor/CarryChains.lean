import SoundUnit.Proofs.Processor.Carry
import SoundUnit.Proofs.Processor.DigitChains
import SoundUnit.Proofs.Processor.Operands

namespace SoundUnit

open Arithmetic

def littleEndian (bytes : List UInt8) : Nat := Nat.ofDigits 0x100 (bytes.map UInt8.toNat)

def signedLittleEndian (bytes : List UInt8) : Int := (littleEndian bytes : Int).bmod (0x100 ^ bytes.length)

def FitsSigned (n : Nat) (v : Int) : Prop := -0x100 ^ n ≤ 2 * v ∧ 2 * v < 0x100 ^ n

instance (n : Nat) (v : Int) : Decidable (FitsSigned n v) := inferInstanceAs (Decidable (_ ∧ _))

theorem littleEndian_lt (bytes : List UInt8) : littleEndian bytes < 0x100 ^ bytes.length :=
  ofDigits_map_lt (by decide) fun b _ ↦ b.toNat_lt

theorem littleEndian_map {α : Type} (f : α → UInt8) (l : List α) :
    littleEndian (l.map f) = Nat.ofDigits 0x100 (l.map fun x ↦ (f x).toNat) := by
  rw [littleEndian, List.map_map]
  rfl

theorem littleEndian_concat (bytes : List UInt8) (b : UInt8) :
    littleEndian (bytes ++ [b]) = littleEndian bytes + 0x100 ^ bytes.length * b.toNat := by
  simp [littleEndian, Nat.ofDigits_append]

theorem signedLittleEndian_concat (bytes : List UInt8) (b : UInt8) :
    signedLittleEndian (bytes ++ [b]) = littleEndian bytes + 0x100 ^ bytes.length * b.toInt8.toInt := by
  have hl := littleEndian_lt bytes
  have hb := b.toNat_lt
  have hp : (0x100 : Int) ^ bytes.length = (0x100 ^ bytes.length : Nat) := by norm_cast
  rw [signedLittleEndian, littleEndian_concat, List.length_append, List.length_singleton, pow_succ, Int.bmod_def,
    toInt_toInt8, hp]
  generalize 0x100 ^ bytes.length = p at *
  generalize littleEndian bytes = low at *
  have hlt : low + p * b.toNat < p * 0x100 := by nlinarith
  rw [Int.emod_eq_of_lt (by positivity) (by exact_mod_cast hlt)]
  by_cases h : b.toNat < 0x80
  · have hh : low + p * b.toNat < 0x80 * p := by nlinarith
    rw [if_pos (by omega), if_pos h]
    push_cast
    rfl
  · have hh : 0x80 * p ≤ low + p * b.toNat := by nlinarith
    rw [if_neg (by omega), if_neg h]
    push_cast
    ring

theorem fitsSigned_iff {n low : Nat} (hl : low < 0x100 ^ n) (k : Int) :
    FitsSigned (n + 1) (low + 0x100 ^ n * k) ↔ -0x80 ≤ k ∧ k < 0x80 := by
  have hl : (low : Int) < 0x100 ^ n := by exact_mod_cast hl
  rw [FitsSigned, pow_succ]
  generalize (0x100 ^ n : Int) = p at *
  constructor
  · rintro ⟨h₁, h₂⟩
    constructor <;> by_contra hk
    · have : k ≤ -0x81 := by omega
      nlinarith
    · have : 0x80 ≤ k := by omega
      nlinarith
  · rintro ⟨h₁, h₂⟩
    have : k ≤ 0x7F := by omega
    constructor <;> nlinarith

namespace Arithmetic

theorem addCarry_value (a b : UInt8) (s : Status) :
    (addCarry a b s).1.toNat + 0x100 * (addCarry a b s).2.carry.toNat = a.toNat + b.toNat + s.carry.toNat := by
  rw [toNat_addCarry, toNat_carry_addCarry]
  exact Nat.mod_add_div ..

end Arithmetic

theorem BinaryOp.performs_add (s : Status) (x : UInt8 × UInt8) (d : UInt8) (t : Status) :
    BinaryOp.add.Performs s x d t ↔ d = (addCarry x.1 x.2 s).1 ∧ t = (addCarry x.1 x.2 s).2 :=
  performs_iff rfl

theorem BinaryOp.performs_subtract (s : Status) (x : UInt8 × UInt8) (d : UInt8) (t : Status) :
    BinaryOp.subtract.Performs s x d t ↔ d = (addCarry x.1 (~~~x.2) s).1 ∧ t = (addCarry x.1 (~~~x.2) s).2 :=
  performs_iff rfl

/-- What the sum of the numbers `a` and `b` of equally many bytes and the carry `c` should be, and the flags after it.
-/
structure SumOf (a b : List UInt8) (c : Bool) (d : List UInt8) (t : Status) : Prop where
  length_eq : d.length = a.length
  value_eq : littleEndian d = (littleEndian a + littleEndian b + c.toNat) % 0x100 ^ a.length
  carry_eq : t.carry = decide (0x100 ^ a.length ≤ littleEndian a + littleEndian b + c.toNat)
  overflow_eq : a ≠ [] →
    t.overflow = decide (¬ FitsSigned a.length (signedLittleEndian a + signedLittleEndian b + c.toNat))

/-- What the difference of the numbers `a` and `b` should be, and the flags after it. A carry `c` is the absence of a
borrow. -/
structure DifferenceOf (a b : List UInt8) (c : Bool) (d : List UInt8) (t : Status) : Prop where
  length_eq : d.length = a.length
  value_eq : (littleEndian d : Int) = (littleEndian a - littleEndian b - (1 - c.toNat)) % 0x100 ^ a.length
  carry_eq : t.carry = decide (littleEndian b + (1 - c.toNat) ≤ littleEndian a)
  overflow_eq : a ≠ [] →
    t.overflow = decide (¬ FitsSigned a.length (signedLittleEndian a - signedLittleEndian b - (1 - c.toNat)))

namespace Chain

variable {s t : Status} {l : List (UInt8 × UInt8)} {d : List UInt8}

theorem add_value (h : Chain BinaryOp.add.Performs s l d t) :
    littleEndian d + 0x100 ^ l.length * t.carry.toNat =
      littleEndian (l.map Prod.fst) + littleEndian (l.map Prod.snd) + s.carry.toNat := by
  rw [littleEndian_map, littleEndian_map, ← ofDigits_map_add]
  refine h.ofDigits_eq fun s x _ d t hx ↦ ?_
  obtain ⟨rfl, rfl⟩ := (BinaryOp.performs_add ..).1 hx
  exact addCarry_value ..

theorem subtract_value (h : Chain BinaryOp.subtract.Performs s l d t) :
    littleEndian d + 0x100 ^ l.length * t.carry.toNat + littleEndian (l.map Prod.snd) + 1 =
      littleEndian (l.map Prod.fst) + 0x100 ^ l.length + s.carry.toNat := by
  have hv : littleEndian d + 0x100 ^ l.length * t.carry.toNat =
      Nat.ofDigits 0x100 (l.map fun x ↦ x.1.toNat + (0x100 - 1 - x.2.toNat)) + s.carry.toNat := by
    refine h.ofDigits_eq fun s x _ d t hx ↦ ?_
    obtain ⟨rfl, rfl⟩ := (BinaryOp.performs_subtract ..).1 hx
    have hn : (~~~x.2).toNat = 0x100 - 1 - x.2.toNat := UInt8.toNat_not x.2
    rw [← hn]
    exact addCarry_value ..
  have hc := ofDigits_complement 0x100 (fun x : UInt8 × UInt8 ↦ x.2.toNat) l fun x _ ↦ x.2.toNat_lt
  rw [ofDigits_map_add, ← littleEndian_map] at hv
  rw [← littleEndian_map] at hc
  omega

theorem decide_fitsSigned {n low : Nat} {v k : Int} (hl : low < 0x100 ^ n) (hv : v = low + 0x100 ^ n * k) :
    decide (¬ FitsSigned (n + 1) v) = decide (k < -0x80 ∨ 0x80 ≤ k) := by
  rw [decide_eq_decide, hv, fitsSigned_iff hl]
  omega

theorem add_overflow (h : Chain BinaryOp.add.Performs s l d t) (hl : l ≠ []) :
    t.overflow = decide (¬ FitsSigned l.length
      (signedLittleEndian (l.map Prod.fst) + signedLittleEndian (l.map Prod.snd) + s.carry.toNat)) := by
  obtain ⟨l, x, rfl⟩ := (List.eq_nil_or_concat' l).resolve_left hl
  obtain ⟨d, b, s₁, s₂, rfl, hs, hc, hx⟩ := h.concat
  obtain ⟨rfl, rfl⟩ := (BinaryOp.performs_add ..).1 hx
  have hv := hs.add_value
  have hd := hs.length_eq ▸ littleEndian_lt d
  rw [overflow_addCarry, hc, List.length_append, List.length_singleton]
  refine (decide_fitsSigned hd ?_).symm
  simp only [List.map_append, List.map_cons, List.map_nil, signedLittleEndian_concat, List.length_map, signedSum]
  zify at hv
  linear_combination -hv

theorem subtract_overflow (h : Chain BinaryOp.subtract.Performs s l d t) (hl : l ≠ []) :
    t.overflow = decide (¬ FitsSigned l.length
      (signedLittleEndian (l.map Prod.fst) - signedLittleEndian (l.map Prod.snd) - (1 - s.carry.toNat))) := by
  obtain ⟨l, x, rfl⟩ := (List.eq_nil_or_concat' l).resolve_left hl
  obtain ⟨d, b, s₁, s₂, rfl, hs, hc, hx⟩ := h.concat
  obtain ⟨rfl, rfl⟩ := (BinaryOp.performs_subtract ..).1 hx
  have hv := hs.subtract_value
  have hd := hs.length_eq ▸ littleEndian_lt d
  rw [overflow_addCarry, hc, List.length_append, List.length_singleton]
  refine (decide_fitsSigned hd ?_).symm
  simp only [List.map_append, List.map_cons, List.map_nil, signedLittleEndian_concat, List.length_map, signedSum,
    toInt_toInt8_complement]
  zify at hv
  linear_combination -hv

theorem add_sumOf (h : Chain BinaryOp.add.Performs s l d t) :
    SumOf (l.map Prod.fst) (l.map Prod.snd) s.carry d t := by
  have hlt := h.length_eq ▸ littleEndian_lt d
  obtain ⟨hv, hc⟩ := eq_mod_of_carry h.add_value hlt
  rw [← List.length_map Prod.fst] at hv hc
  refine ⟨h.length_eq.trans (List.length_map _).symm, hv, hc, fun hne ↦ ?_⟩
  rw [List.length_map]
  exact h.add_overflow (by simpa using hne)

theorem subtract_differenceOf (h : Chain BinaryOp.subtract.Performs s l d t) :
    DifferenceOf (l.map Prod.fst) (l.map Prod.snd) s.carry d t := by
  have hlt := h.length_eq ▸ littleEndian_lt d
  obtain ⟨hv, hc⟩ := eq_emod_of_borrow h.subtract_value hlt
  rw [← List.length_map Prod.fst] at hv
  refine ⟨h.length_eq.trans (List.length_map _).symm, ?_, hc, fun hne ↦ ?_⟩
  · rw [hv]
    norm_cast
  · rw [List.length_map]
    exact h.subtract_overflow (by simpa using hne)

section Rotation

variable {l : List UInt8}

theorem rotateLeft_value (h : Chain UnaryOp.rotateLeft.Performs s l d t) :
    littleEndian d + 0x100 ^ l.length * t.carry.toNat = 2 * littleEndian l + s.carry.toNat := by
  rw [two_mul, littleEndian, littleEndian, ← ofDigits_map_add]
  refine h.ofDigits_eq fun s x _ d t hx ↦ ?_
  obtain ⟨rfl, rfl⟩ := (UnaryOp.performs_iff rfl).1 hx
  exact Arithmetic.rotateLeft_value x s

theorem rotateRight_value (h : Chain UnaryOp.rotateRight.Performs s l d t) :
    2 * littleEndian d.reverse + t.carry.toNat = littleEndian l.reverse + 0x100 ^ l.length * s.carry.toNat := by
  induction h with
  | nil s => simp [littleEndian]
  | @cons s s₁ s₂ t x l b d hc h hs ih =>
    obtain ⟨rfl, rfl⟩ := (UnaryOp.performs_iff rfl).1 h
    have hv := Arithmetic.rotateRight_value x s₁
    simp only [List.reverse_cons, littleEndian_concat, List.length_reverse, List.length_cons, hs.length_eq, pow_succ]
    change 2 * (Arithmetic.rotateRight x s₁).1.toNat + _ = _ at hv
    change 2 * (_ + 0x100 ^ l.length * (Arithmetic.rotateRight x s₁).1.toNat) + _ = _
    rw [hc] at hv
    linear_combination ih + 0x100 ^ l.length * hv

end Rotation

end Chain

/-- Byte by byte from the low end, sums and differences of numbers of any length come out right, with the carry and the
overflow of the whole operation; rotations one byte after another move the whole number by one bit. The carry flag is
all that goes from one byte to the next. -/
theorem carry_chains (s : Status) :
    (∀ l : List (UInt8 × UInt8),
      Chain.Makes BinaryOp.add.Performs s l (SumOf (l.map Prod.fst) (l.map Prod.snd) s.carry) ∧
        Chain.Makes BinaryOp.subtract.Performs s l (DifferenceOf (l.map Prod.fst) (l.map Prod.snd) s.carry)) ∧
    ∀ bytes : List UInt8,
      Chain.Makes UnaryOp.rotateLeft.Performs s bytes (fun d t ↦
        d.length = bytes.length ∧
          littleEndian d = (2 * littleEndian bytes + s.carry.toNat) % 0x100 ^ bytes.length ∧
          t.carry = decide (0x100 ^ bytes.length ≤ 2 * littleEndian bytes + s.carry.toNat)) ∧
        Chain.Makes UnaryOp.rotateRight.Performs s bytes.reverse (fun d t ↦
          d.length = bytes.length ∧
            littleEndian d.reverse = (littleEndian bytes + 0x100 ^ bytes.length * s.carry.toNat) / 2 ∧
            t.carry = decide ((littleEndian bytes + 0x100 ^ bytes.length * s.carry.toNat) % 2 = 1)) := by
  refine ⟨fun l ↦ ⟨⟨?_, fun d t h ↦ h.add_sumOf⟩, ?_, fun d t h ↦ h.subtract_differenceOf⟩,
    fun bytes ↦ ⟨⟨?_, fun d t h ↦ ?_⟩, ?_, fun d t h ↦ ?_⟩⟩
  · exact Chain.exists_of_total (fun s x ↦ ⟨_, _, (BinaryOp.performs_add ..).2 ⟨rfl, rfl⟩⟩) s l
  · exact Chain.exists_of_total (fun s x ↦ ⟨_, _, (BinaryOp.performs_subtract ..).2 ⟨rfl, rfl⟩⟩) s l
  · exact Chain.exists_of_total (fun s x ↦ ⟨_, _, (UnaryOp.performs_iff rfl).2 ⟨rfl, rfl⟩⟩) s bytes
  · have hlt := h.length_eq ▸ littleEndian_lt d
    exact ⟨h.length_eq, eq_mod_of_carry h.rotateLeft_value hlt⟩
  · exact Chain.exists_of_total (fun s x ↦ ⟨_, _, (UnaryOp.performs_iff rfl).2 ⟨rfl, rfl⟩⟩) s bytes.reverse
  · have hv := h.rotateRight_value
    have hc := t.carry.toNat_le
    rw [List.reverse_reverse, List.length_reverse] at hv
    refine ⟨h.length_eq.trans List.length_reverse, by omega, ?_⟩
    rw [← hv]
    cases t.carry <;> simp

end SoundUnit
