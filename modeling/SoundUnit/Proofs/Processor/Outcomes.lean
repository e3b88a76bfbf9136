import SoundUnit.Proofs.Processor.Carry

namespace SoundUnit

open Arithmetic

namespace Status

/-- The sign flag and the zero flag of a result. -/
def describing (s : Status) (n : Nat) : Status :=
  { s with negative := decide (0x80 ≤ n), zero := decide (n = 0) }

theorem ofResult_eq (s : Status) {b : UInt8} {n : Nat} (h : b.toNat = n) : s.ofResult b = s.describing n := by
  have hn : (0x80 ≤ b) = (0x80 ≤ n) := by rw [← h, UInt8.le_iff_toNat_le]; rfl
  have hz : (b = 0) = (n = 0) := by rw [← h, ← UInt8.toNat_inj]; rfl
  simp only [ofResult, describing, hn, hz]

end Status

/-- What an operation makes of two bytes, in numbers: its result, unless it only compares, and the flags. For a
difference the carry is the absence of a borrow. -/
def BinaryOp.outcome (op : BinaryOp) (a b : UInt8) (s : Status) : Option Nat × Status :=
  match op with
  | .or => (some (a.toNat ||| b.toNat), s.describing (a.toNat ||| b.toNat))
  | .and => (some (a.toNat &&& b.toNat), s.describing (a.toNat &&& b.toNat))
  | .xor => (some (a.toNat ^^^ b.toNat), s.describing (a.toNat ^^^ b.toNat))
  | .compare =>
    (none, { s.describing ((a.toNat + 0x100 - b.toNat) % 0x100) with carry := decide (b.toNat ≤ a.toNat) })
  | .add =>
    let carry := s.carry.toNat
    let n := (a.toNat + b.toNat + carry) % 0x100
    let signed := a.toInt8.toInt + b.toInt8.toInt + carry
    (some n, { s.describing n with
      overflow := decide (signed < -0x80 ∨ 0x80 ≤ signed)
      halfCarry := decide (0x10 ≤ a.toNat % 0x10 + b.toNat % 0x10 + carry)
      carry := decide (0x100 ≤ a.toNat + b.toNat + carry) })
  | .subtract =>
    let borrow := 1 - s.carry.toNat
    let n := (a.toNat + 0x100 - b.toNat - borrow) % 0x100
    let signed := a.toInt8.toInt - b.toInt8.toInt - borrow
    (some n, { s.describing n with
      overflow := decide (signed < -0x80 ∨ 0x80 ≤ signed)
      halfCarry := decide (b.toNat % 0x10 + borrow ≤ a.toNat % 0x10)
      carry := decide (b.toNat + borrow ≤ a.toNat) })

/-- What an operation makes of one byte, in numbers. -/
def UnaryOp.outcome : UnaryOp → UInt8 → Status → Nat × Status
  | .shiftLeft, b, s =>
    let n := 2 * b.toNat % 0x100
    (n, { s.describing n with carry := decide (0x80 ≤ b.toNat) })
  | .rotateLeft, b, s =>
    let n := (2 * b.toNat + s.carry.toNat) % 0x100
    (n, { s.describing n with carry := decide (0x80 ≤ b.toNat) })
  | .shiftRight, b, s =>
    let n := b.toNat / 2
    (n, { s.describing n with carry := decide (b.toNat % 2 = 1) })
  | .rotateRight, b, s =>
    let n := b.toNat / 2 + 0x80 * s.carry.toNat
    (n, { s.describing n with carry := decide (b.toNat % 2 = 1) })
  | .decrement, b, s => ((b.toNat + 0xFF) % 0x100, s.describing ((b.toNat + 0xFF) % 0x100))
  | .increment, b, s => ((b.toNat + 1) % 0x100, s.describing ((b.toNat + 1) % 0x100))

namespace Arithmetic

variable (a b : UInt8) (s : Status)

theorem ofNat_mod (n : Nat) : UInt8.ofNat (n % 0x100) = UInt8.ofNat n := by
  rw [← UInt8.toNat_inj, UInt8.toNat_ofNat', UInt8.toNat_ofNat']
  exact Nat.mod_mod n 0x100

theorem addCarry_eq : addCarry a b s =
    (UInt8.ofNat (a.toNat + b.toNat + s.carry.toNat), { s.describing ((a.toNat + b.toNat + s.carry.toNat) % 0x100) with
      overflow := decide (signedSum a b s.carry < -0x80 ∨ 0x80 ≤ signedSum a b s.carry)
      halfCarry := decide (0x10 ≤ a.toNat % 0x10 + b.toNat % 0x10 + s.carry.toNat)
      carry := decide (0x100 ≤ a.toNat + b.toNat + s.carry.toNat) }) := by
  have ho := overflow_addCarry a b s
  have hh := halfCarry_addCarry a b s
  rw [← s.ofResult_eq (toNat_addCarry a b s), ← ho, ← hh]
  rfl

end Arithmetic

theorem Status.written_eq (s : Status) {b : UInt8} {n : Nat} (h : b.toNat = n) :
    (some b, s.ofResult b) = ((some n).map UInt8.ofNat, s.describing n) := by
  rw [s.ofResult_eq h, ← h, Option.map_some, UInt8.ofNat_toNat]

theorem BinaryOp.apply_eq (op : BinaryOp) (a b : UInt8) (s : Status) :
    op.apply a b s = ((op.outcome a b s).1.map UInt8.ofNat, (op.outcome a b s).2) := by
  cases op with
  | or => exact s.written_eq (UInt8.toNat_or a b)
  | and => exact s.written_eq (UInt8.toNat_and a b)
  | xor => exact s.written_eq (UInt8.toNat_xor a b)
  | compare =>
    have hd : (a - b).toNat = (a.toNat + 0x100 - b.toNat) % 0x100 := by
      have hb := b.toNat_lt
      rw [UInt8.toNat_sub]
      omega
    simp only [apply, outcome, Arithmetic.compare, s.ofResult_eq hd, UInt8.le_iff_toNat_le, Option.map_none]
  | add =>
    simp only [apply, outcome, addCarry_eq, signedSum, Option.map_some, ofNat_mod]
    rfl
  | subtract =>
    have hb := b.toNat_lt
    have hs := s.carry.toNat_le
    have hc : (~~~b).toNat = 0xFF - b.toNat := UInt8.toNat_not b
    have hn : a.toNat + (~~~b).toNat + s.carry.toNat = a.toNat + 0x100 - b.toNat - (1 - s.carry.toNat) := by omega
    have hsigned : signedSum a (~~~b) s.carry = a.toInt8.toInt - b.toInt8.toInt - ↑(1 - s.carry.toNat) := by
      unfold signedSum
      rw [toInt_toInt8_complement]
      omega
    have hcarry : 0x100 ≤ a.toNat + 0x100 - b.toNat - (1 - s.carry.toNat) ↔
        b.toNat + (1 - s.carry.toNat) ≤ a.toNat := by omega
    have hhalf : 0x10 ≤ a.toNat % 0x10 + (~~~b).toNat % 0x10 + s.carry.toNat ↔
        b.toNat % 0x10 + (1 - s.carry.toNat) ≤ a.toNat % 0x10 := by omega
    simp only [apply, outcome, addCarry_eq, hn, hsigned, hcarry, hhalf, Option.map_some, ofNat_mod]

theorem Bit.test_high (b : UInt8) : Bit.test b 7 = decide (0x80 ≤ b.toNat) := by
  have hb := b.toNat_lt
  rw [Bit.test_seven, decide_eq_decide]
  omega

theorem UnaryOp.apply_eq (op : UnaryOp) (b : UInt8) (s : Status) :
    op.apply b s = (UInt8.ofNat (op.outcome b s).1, (op.outcome b s).2) := by
  have hb := b.toNat_lt
  cases op with
  | shiftLeft =>
    have hr : (b <<< 1).toNat = 2 * b.toNat % 0x100 := by
      rw [UInt8.toNat_shiftLeft, Nat.shiftLeft_eq, Nat.mul_comm]
      rfl
    simp only [apply, outcome, Arithmetic.shiftLeft, s.ofResult_eq hr, Bit.test_high, ← hr, UInt8.ofNat_toNat]
  | rotateLeft =>
    have hr : (b <<< 1 ||| s.carry.toUInt8).toNat = (2 * b.toNat + s.carry.toNat) % 0x100 := by
      have hv := Arithmetic.rotateLeft_value b s
      have hlt := (Arithmetic.rotateLeft b s).1.toNat_lt
      change (Arithmetic.rotateLeft b s).1.toNat = _
      omega
    simp only [apply, outcome, Arithmetic.rotateLeft, s.ofResult_eq hr, Bit.test_high, ← hr, UInt8.ofNat_toNat]
  | shiftRight =>
    have hr : (b >>> 1).toNat = b.toNat / 2 := Bit.toNat_shiftRight b (by decide) rfl
    simp only [apply, outcome, Arithmetic.shiftRight, s.ofResult_eq hr, Bit.test_low, ← hr, UInt8.ofNat_toNat]
  | rotateRight =>
    have hr : (b >>> 1 ||| s.carry.toUInt8 <<< 7).toNat = b.toNat / 2 + 0x80 * s.carry.toNat := by
      have hv := Arithmetic.rotateRight_value b s
      have hc := (Arithmetic.rotateRight b s).2.carry.toNat_le
      change (Arithmetic.rotateRight b s).1.toNat = _
      omega
    simp only [apply, outcome, Arithmetic.rotateRight, s.ofResult_eq hr, Bit.test_low, ← hr, UInt8.ofNat_toNat]
  | decrement =>
    have hr : (b - 1).toNat = (b.toNat + 0xFF) % 0x100 := by
      rw [UInt8.toNat_sub, Nat.add_comm]
      rfl
    simp only [apply, outcome, s.ofResult_eq hr, ← hr, UInt8.ofNat_toNat]
  | increment =>
    have hr : (b + 1).toNat = (b.toNat + 1) % 0x100 := UInt8.toNat_add b 1
    simp only [apply, outcome, s.ofResult_eq hr, ← hr, UInt8.ofNat_toNat]

end SoundUnit
