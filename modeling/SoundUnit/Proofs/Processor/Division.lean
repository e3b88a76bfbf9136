import SoundUnit.Proofs.Processor.Carry
import SoundUnit.Proofs.Processor.Dispatch

namespace SoundUnit

namespace Arithmetic

/-- The results of a division: what is left in A, Y and the overflow flag, and the dividend YA and divisor X before. -/
structure Divides (y a x : Nat) (quotient remainder : UInt8) (overflow : Bool) : Prop where
  /-- The numbers that are cut to bytes exist, no operation on the way to them fails, and nothing but the highest bit of
  a quotient of nine bits is cut off. -/
  exists_numbers : ∃ q r, quotientAndRemainder? y (0x100 * y + a) x = some (q, r) ∧ q < 0x200 ∧ r < 0x100 ∧
    quotient = q.toUInt8 ∧ remainder = r.toUInt8
  value_eq : if y < 2 * x then
      0 < x ∧ quotient.toNat + 0x100 * overflow.toNat = (0x100 * y + a) / x ∧ remainder.toNat = (0x100 * y + a) % x
    else
      overflow = true ∧ x ≤ remainder.toNat ∧ remainder.toNat ≤ 0xFF ∧
        ((255 - quotient.toNat) * (256 - x) + (remainder.toNat - x) : Int) = 256 * y + a - 512 * x

section

variable {y a x : Nat}

theorem divides_of_lt (hy : y < 0x100) (ha : a < 0x100) (hx : x < 0x100) (h : y < 2 * x) :
    Divides y a x ((0x100 * y + a) / x).toUInt8 ((0x100 * y + a) % x).toUInt8 (decide (x ≤ y)) := by
  have hd : 0 < x := by omega
  have hq : (0x100 * y + a) / x < 0x200 := Nat.div_lt_of_lt_mul (by omega)
  have hr : (0x100 * y + a) % x < 0x100 := (Nat.mod_lt _ hd).trans hx
  have hv : x ≤ y ↔ 0x100 ≤ (0x100 * y + a) / x := by
    rw [Nat.le_div_iff_mul_le hd]
    omega
  refine ⟨⟨_, _, quotientAndRemainder?_of_lt h _, hq, hr, rfl, rfl⟩, ?_⟩
  rw [if_pos h]
  refine ⟨hd, ?_, UInt8.toNat_ofNat_of_lt' hr⟩
  generalize (0x100 * y + a) / x = q at *
  simp only [hv, Nat.toUInt8, UInt8.toNat_ofNat']
  by_cases hb : 0x100 ≤ q
  · simp only [hb, decide_true, Bool.toNat_true]
    omega
  · simp only [hb, decide_false, Bool.toNat_false]
    omega

theorem divides_of_le (hy : y < 0x100) (ha : a < 0x100) (h : 2 * x ≤ y) :
    Divides y a x (255 - (0x100 * y + a - 512 * x) / (256 - x)).toUInt8
      (x + (0x100 * y + a - 512 * x) % (256 - x)).toUInt8 (decide (x ≤ y)) := by
  obtain ⟨hq, hs⟩ := quotientAndRemainder?_of_le h hy ha
  rw [Nat.mul_comm y] at hq hs
  have hr : (0x100 * y + a - 512 * x) % (256 - x) < 256 - x := Nat.mod_lt _ (by omega)
  have hd := Nat.div_add_mod' (0x100 * y + a - 512 * x) (256 - x)
  generalize (0x100 * y + a - 512 * x) / (256 - x) = q at *
  generalize (0x100 * y + a - 512 * x) % (256 - x) = r at *
  have hq' : (255 - q).toUInt8.toNat = 255 - q := UInt8.toNat_ofNat_of_lt' (by change _ < 0x100; omega)
  have hr' : (x + r).toUInt8.toNat = x + r := UInt8.toNat_ofNat_of_lt' (by change _ < 0x100; omega)
  refine ⟨⟨_, _, hs, by omega, by omega, rfl, rfl⟩, ?_⟩
  rw [if_neg (Nat.not_lt.2 h), hq', hr']
  refine ⟨decide_eq_true (by omega), by omega, by omega, ?_⟩
  have hd' : (q * (256 - x) + r : Int) = 256 * y + a - 512 * x := by
    have hx : ((256 - x : Nat) : Int) = 256 - x := by omega
    rw [← hx]
    omega
  rw [← hd', show ((255 - q : Nat) : Int) = 255 - q by omega]
  push_cast
  ring

end

theorem divides_divide (y a x : UInt8) (s : Status) :
    Divides y.toNat a.toNat x.toNat (divide y a x s).1 (divide y a x s).2.1 (divide y a x s).2.2.overflow := by
  unfold divide
  dsimp only
  rw [Nat.mul_comm y.toNat]
  split
  next h => exact divides_of_lt y.toNat_lt a.toNat_lt x.toNat_lt h
  next h => exact divides_of_le y.toNat_lt a.toNat_lt (Nat.not_lt.1 h)

end Arithmetic

open Arithmetic

namespace Core

theorem dispatch_divide (c : Core) :
    let divided := divide c.registers.y c.registers.a c.registers.x c.registers.status
    c.dispatch 0x9E =
      (12, { c with registers := { c.registers with a := divided.1, y := divided.2.1, status := divided.2.2 } }) :=
  rfl

/-- What a division leaves in A, Y and the flags. Nothing else changes. -/
theorem division (c : Core) :
    let r := c.registers
    let r' := (c.dispatch 0x9E).2.registers
    Divides r.y.toNat r.a.toNat r.x.toNat r'.a r'.y r'.status.overflow ∧
      r'.status = { r.status with
        negative := 0x80 ≤ r'.a
        overflow := r'.status.overflow
        halfCarry := r.x.toNat % 0x10 ≤ r.y.toNat % 0x10
        zero := r'.a = 0 } ∧
      c.dispatch 0x9E = (12, { c with registers := { r with a := r'.a, y := r'.y, status := r'.status } }) := by
  intro r r'
  have hd := c.dispatch_divide
  have hr : r' = _ := congrArg (·.2.registers) hd
  refine ⟨?_, ?_, ?_⟩
  · rw [hr]
    exact divides_divide ..
  · rw [hr]
    simp only [← toNat_low_half]
    rfl
  · rw [hr]
    exact hd

end Core

end SoundUnit
