import SoundUnit.Proofs.Processor.Carry

namespace SoundUnit

open Word

theorem toInt_toInt16 (w : UInt16) :
    w.toInt16.toInt = if w.toNat < 0x8000 then (w.toNat : Int) else w.toNat - 0x10000 := by
  have h := w.toBitVec.toInt_eq_toNat_cond
  refine h.trans ?_
  change (if 2 * w.toNat < 0x10000 then (w.toNat : Int) else w.toNat - 0x10000) = _
  split <;> split <;> omega

theorem toInt_toInt16_eq_bytes (w : UInt16) : w.toInt16.toInt = 0x100 * (high w).toInt8.toInt + (low w).toNat := by
  have hw := w.toNat_lt
  rw [toInt_toInt16, toInt_toInt8, toNat_high, toNat_low]
  split <;> split <;> omega

namespace Status

/-- The flags after a sum of words: whether there is a carry out of bit 15 and out of bit 11, and whether the signed sum
has room in a word. -/
def ofWordSum (s : Status) (a b : UInt16) : Status :=
  let signed := a.toInt16.toInt + b.toInt16.toInt
  { s with
    negative := 0x8000 ≤ a + b
    overflow := signed < -0x8000 ∨ 0x8000 ≤ signed
    halfCarry := 0x1000 ≤ a.toNat % 0x1000 + b.toNat % 0x1000
    zero := a + b = 0
    carry := 0x10000 ≤ a.toNat + b.toNat }

/-- The flags after a difference of words. The carry is the absence of a borrow. -/
def ofWordDifference (s : Status) (a b : UInt16) : Status :=
  let signed := a.toInt16.toInt - b.toInt16.toInt
  { s with
    negative := 0x8000 ≤ a - b
    overflow := signed < -0x8000 ∨ 0x8000 ≤ signed
    halfCarry := b.toNat % 0x1000 ≤ a.toNat % 0x1000
    zero := a - b = 0
    carry := b ≤ a }

end Status

namespace Arithmetic

/-- The sum of two words and the carry, byte by byte. -/
def addWords (a b : UInt16) (s : Status) : UInt16 × Status :=
  let low := addCarry (low a) (low b) s
  let high := addCarry (high a) (high b) low.2
  (word high.1 low.1, { high.2 with zero := low.1 = 0 ∧ high.1 = 0 })

theorem addWide_eq_addWords (a b : UInt16) (s : Status) : addWide a b s = addWords a b { s with carry := false } := rfl

theorem subtractWide_eq_addWords (a b : UInt16) (s : Status) :
    subtractWide a b s = addWords a (~~~b) { s with carry := true } := by
  have hb := b.toNat_lt
  have hc : (~~~b).toNat = 0xFFFF - b.toNat := UInt16.toNat_not b
  have hl : ~~~low b = low (~~~b) := by
    rw [← UInt8.toNat_inj, UInt8.toNat_not, toNat_low, toNat_low, hc]
    change 0xFF - b.toNat % 0x100 = _
    omega
  have hh : ~~~high b = high (~~~b) := by
    rw [← UInt8.toNat_inj, UInt8.toNat_not, toNat_high, toNat_high, hc]
    change 0xFF - b.toNat / 0x100 = _
    omega
  unfold subtractWide addWords
  rw [hl, hh]

section AddWords

variable (a b : UInt16) (s : Status)

theorem toNat_carry_low :
    (addCarry (low a) (low b) s).2.carry.toNat = (a.toNat % 0x100 + b.toNat % 0x100 + s.carry.toNat) / 0x100 := by
  rw [toNat_carry_addCarry, toNat_low, toNat_low]

theorem toNat_addWords : (addWords a b s).1.toNat = (a.toNat + b.toNat + s.carry.toNat) % 0x10000 := by
  have ha := a.toNat_lt
  have hb := b.toNat_lt
  have hc := toNat_carry_low a b s
  simp only [addWords, toNat_word, toNat_addCarry, toNat_low, toNat_high]
  omega

theorem carry_addWords :
    (addWords a b s).2.carry = decide (0x10000 ≤ a.toNat + b.toNat + s.carry.toNat) := by
  have hc := toNat_carry_low a b s
  refine (carry_addCarry ..).trans ?_
  rw [hc, toNat_high, toNat_high, decide_eq_decide]
  omega

theorem halfCarry_addWords :
    (addWords a b s).2.halfCarry = decide (0x1000 ≤ a.toNat % 0x1000 + b.toNat % 0x1000 + s.carry.toNat) := by
  have hc := toNat_carry_low a b s
  refine (halfCarry_addCarry ..).trans ?_
  rw [hc, toNat_high, toNat_high, decide_eq_decide]
  omega

theorem overflow_addWords :
    let signed := a.toInt16.toInt + b.toInt16.toInt + s.carry.toNat
    (addWords a b s).2.overflow = decide (signed < -0x8000 ∨ 0x8000 ≤ signed) := by
  have hc := toNat_carry_low a b s
  have ha := toInt_toInt16_eq_bytes a
  have hb := toInt_toInt16_eq_bytes b
  rw [toNat_low] at ha hb
  intro signed
  refine (overflow_addCarry ..).trans ?_
  simp only [signedSum, hc, decide_eq_decide]
  omega

theorem negative_addWords : (addWords a b s).2.negative = decide (0x8000 ≤ (addWords a b s).1) := by
  have hl := (addCarry (low a) (low b) s).1.toNat_lt
  change decide (0x80 ≤ (addCarry _ _ _).1) = _
  simp only [addWords, UInt8.le_iff_toNat_le, UInt16.le_iff_toNat_le, toNat_word, decide_eq_decide]
  change 0x80 ≤ _ ↔ 0x8000 ≤ _
  omega

theorem zero_addWords : (addWords a b s).2.zero = decide ((addWords a b s).1 = 0) := by
  have hl := (addCarry (low a) (low b) s).1.toNat_lt
  simp only [addWords, ← UInt8.toNat_inj, ← UInt16.toNat_inj, toNat_word, decide_eq_decide]
  change _ = 0 ∧ _ = 0 ↔ _ = 0
  omega

theorem addWords_eq :
    (addWords a b s).2 =
      { s with
        negative := (addWords a b s).2.negative
        overflow := (addWords a b s).2.overflow
        halfCarry := (addWords a b s).2.halfCarry
        zero := (addWords a b s).2.zero
        carry := (addWords a b s).2.carry } := rfl

end AddWords

theorem addWide_eq (a b : UInt16) (s : Status) : addWide a b s = (a + b, s.ofWordSum a b) := by
  have hr : (addWords a b { s with carry := false }).1 = a + b := by
    rw [← UInt16.toNat_inj, toNat_addWords, UInt16.toNat_add]
    rfl
  refine Prod.ext hr ?_
  rw [addWide_eq_addWords, addWords_eq, negative_addWords, overflow_addWords, halfCarry_addWords, zero_addWords,
    carry_addWords, hr]
  simp only [Status.ofWordSum, Bool.toNat_false, Nat.add_zero, Int.add_zero, Int.ofNat_zero]

theorem subtractWide_eq (a b : UInt16) (s : Status) : subtractWide a b s = (a - b, s.ofWordDifference a b) := by
  have ha := a.toNat_lt
  have hb := b.toNat_lt
  have hc : (~~~b).toNat = 0xFFFF - b.toNat := UInt16.toNat_not b
  have hs : (~~~b).toInt16.toInt = -1 - b.toInt16.toInt := by
    rw [toInt_toInt16, toInt_toInt16, hc]
    split <;> split <;> omega
  have hr : (addWords a (~~~b) { s with carry := true }).1 = a - b := by
    rw [← UInt16.toNat_inj, toNat_addWords, UInt16.toNat_sub, hc, Bool.toNat_true]
    omega
  rw [subtractWide_eq_addWords]
  refine Prod.ext hr ?_
  rw [addWords_eq, negative_addWords, overflow_addWords, halfCarry_addWords, zero_addWords, carry_addWords, hr]
  simp only [Status.ofWordDifference, Bool.toNat_true, hc, hs, Status.mk.injEq, true_and, decide_eq_decide,
    UInt16.le_iff_toNat_le]
  refine ⟨?_, ?_, ?_⟩ <;> omega

theorem compareWide_eq (a b : UInt16) (s : Status) :
    compareWide a b s =
      { s with
        negative := (s.ofWordDifference a b).negative
        zero := (s.ofWordDifference a b).zero
        carry := (s.ofWordDifference a b).carry } := rfl

end Arithmetic

namespace WideOp

open Arithmetic

variable (a b : UInt16) (s : Status)

theorem apply_add : WideOp.add.apply a b s = (some (a + b), s.ofWordSum a b) := by
  rw [apply, addWide_eq]

theorem apply_subtract : WideOp.subtract.apply a b s = (some (a - b), s.ofWordDifference a b) := by
  rw [apply, subtractWide_eq]

theorem apply_compare : WideOp.compare.apply a b s =
    (none, { s with
      negative := (s.ofWordDifference a b).negative
      zero := (s.ofWordDifference a b).zero
      carry := (s.ofWordDifference a b).carry }) := by
  rw [apply, compareWide_eq]

end WideOp

end SoundUnit
