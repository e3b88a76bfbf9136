import SoundUnit.Proofs.Checked.Processor
import SoundUnit.Proofs.Dsp.Voices

namespace SoundUnit

theorem xor_decide (p q : Prop) [Decidable p] [Decidable q] : (decide p ^^ decide q) = decide (¬ (p ↔ q)) := by
  by_cases hp : p <;> by_cases hq : q <;> simp [hp, hq]

theorem toInt_toInt8 (b : UInt8) : b.toInt8.toInt = if b.toNat < 0x80 then (b.toNat : Int) else b.toNat - 0x100 := by
  have h := b.toBitVec.toInt_eq_toNat_cond
  refine h.trans ?_
  change (if 2 * b.toNat < 0x100 then (b.toNat : Int) else b.toNat - 0x100) = _
  split <;> split <;> omega

theorem toInt_toInt8_complement (b : UInt8) : (~~~b).toInt8.toInt = -1 - b.toInt8.toInt := by
  have hb := b.toNat_lt
  rw [toInt_toInt8, toInt_toInt8, UInt8.toNat_not]
  change (if 0xFF - b.toNat < 0x80 then ((0xFF - b.toNat : Nat) : Int) else ((0xFF - b.toNat : Nat) : Int) - 0x100) = _
  split <;> split <;> omega

namespace Bit

theorem test_four (b : UInt8) : test b 4 = decide (b.toNat / 0x10 % 2 = 1) :=
  (test_eq_testBit b 4).trans Nat.testBit_eq_decide_div_mod_eq

theorem test_seven (b : UInt8) : test b 7 = decide (b.toNat / 0x80 % 2 = 1) :=
  (test_eq_testBit b 7).trans Nat.testBit_eq_decide_div_mod_eq

theorem test_xor (a b : UInt8) (i : Fin 8) : test (a ^^^ b) i = (test a i ^^ test b i) := by
  simp only [test_eq_testBit, UInt8.toNat_xor, Nat.testBit_xor]

end Bit

namespace Arithmetic

variable (a b : UInt8) (s : Status)

theorem toNat_low_half : (b &&& 0xF).toNat = b.toNat % 0x10 := Nat.and_two_pow_sub_one_eq_mod b.toNat 4

theorem toNat_addCarry : (addCarry a b s).1.toNat = (a.toNat + b.toNat + s.carry.toNat) % 0x100 :=
  UInt8.toNat_ofNat'

theorem carry_addCarry : (addCarry a b s).2.carry = decide (0x100 ≤ a.toNat + b.toNat + s.carry.toNat) := rfl

theorem toNat_carry_addCarry : (addCarry a b s).2.carry.toNat = (a.toNat + b.toNat + s.carry.toNat) / 0x100 := by
  have ha := a.toNat_lt
  have hb := b.toNat_lt
  have hc := s.carry.toNat_le
  rw [carry_addCarry]
  by_cases h : 0x100 ≤ a.toNat + b.toNat + s.carry.toNat
  · simp only [h, decide_true, Bool.toNat_true]
    omega
  · simp only [h, decide_false, Bool.toNat_false]
    omega

theorem halfCarry_addCarry :
    (addCarry a b s).2.halfCarry = decide (0x10 ≤ a.toNat % 0x10 + b.toNat % 0x10 + s.carry.toNat) := by
  have ht := Bit.and_mask_ne_zero (a ^^^ b ^^^ (addCarry a b s).1) 4
  refine ht.trans ?_
  have hc := s.carry.toNat_le
  -- Bit 4 of the result is the sum of the operands' bits 4 and that carry, without what is carried on.
  rw [Bit.test_xor, Bit.test_xor]
  simp only [Bit.test_four, toNat_addCarry, xor_decide, decide_eq_decide]
  omega

def signedSum (c : Bool) : Int := a.toInt8.toInt + b.toInt8.toInt + c.toNat

theorem overflow_addCarry :
    (addCarry a b s).2.overflow = decide (signedSum a b s.carry < -0x80 ∨ 0x80 ≤ signedSum a b s.carry) := by
  have ht := Bit.and_mask_ne_zero (~~~(a ^^^ b) &&& (a ^^^ (addCarry a b s).1)) 7
  refine ht.trans ?_
  have hc := s.carry.toNat_le
  have ha := a.toNat_lt
  have hb := b.toNat_lt
  rw [Bit.test_and, Bit.test_complement, Bit.test_xor, Bit.test_xor]
  simp only [Bit.test_seven, toNat_addCarry, xor_decide, ← decide_not, ← Bool.decide_and, decide_eq_decide, signedSum,
    toInt_toInt8]
  split <;> split <;> omega

theorem rotateLeft_value :
    (rotateLeft b s).1.toNat + 0x100 * (rotateLeft b s).2.carry.toNat = b.toNat + b.toNat + s.carry.toNat := by
  have all : ∀ (n : Fin 256) (c : Bool), (UInt8.ofNat n <<< 1 ||| c.toUInt8).toNat +
      0x100 * (Bit.test (UInt8.ofNat n) 7).toNat = n + n + c.toNat := by decide +kernel
  have h := all ⟨b.toNat, b.toNat_lt⟩ s.carry
  rw [UInt8.ofNat_toNat] at h
  exact h

theorem rotateRight_value :
    2 * (rotateRight b s).1.toNat + (rotateRight b s).2.carry.toNat = b.toNat + 0x100 * s.carry.toNat := by
  have all : ∀ (n : Fin 256) (c : Bool), 2 * (UInt8.ofNat n >>> 1 ||| c.toUInt8 <<< 7).toNat +
      (Bit.test (UInt8.ofNat n) 0).toNat = n + 0x100 * c.toNat := by decide +kernel
  have h := all ⟨b.toNat, b.toNat_lt⟩ s.carry
  rw [UInt8.ofNat_toNat] at h
  exact h

end Arithmetic

end SoundUnit
