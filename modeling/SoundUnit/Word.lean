import SoundUnit.Index

namespace SoundUnit

def word (high low : UInt8) : UInt16 := high.toUInt16 <<< 8 ||| low.toUInt16

namespace Word

def low (w : UInt16) : UInt8 := w.toUInt8

def high (w : UInt16) : UInt8 := (w >>> 8).toUInt8

def setLow (w : UInt16) (b : UInt8) : UInt16 := word (high w) b

def setHigh (w : UInt16) (b : UInt8) : UInt16 := word b (low w)

theorem toNat_word (high low : UInt8) : (word high low).toNat = 256 * high.toNat + low.toNat := by
  have h := high.toNat_lt
  have l := low.toNat_lt
  have e : high.toNat <<< 8 % 2 ^ 16 = high.toNat <<< 8 := Nat.mod_eq_of_lt (by rw [Nat.shiftLeft_eq]; omega)
  simp only [word, UInt16.toNat_or, UInt16.toNat_shiftLeft, UInt8.toNat_toUInt16]
  change high.toNat <<< 8 % 2 ^ 16 ||| low.toNat = _
  rw [e, ← Nat.shiftLeft_add_eq_or_of_lt (by omega), Nat.shiftLeft_eq]
  omega

theorem toNat_low (w : UInt16) : (low w).toNat = w.toNat % 256 := UInt16.toNat_toUInt8 w

theorem toNat_high (w : UInt16) : (high w).toNat = w.toNat / 256 := by
  have h := w.toNat_lt
  simp only [high, UInt16.toNat_toUInt8, UInt16.toNat_shiftRight]
  change w.toNat >>> 8 % 2 ^ 8 = _
  rw [Nat.shiftRight_eq_div_pow]
  omega

theorem low_word (high low : UInt8) : Word.low (word high low) = low := by
  have l := low.toNat_lt
  rw [← UInt8.toNat_inj, toNat_low, toNat_word]
  omega

theorem high_word (high low : UInt8) : Word.high (word high low) = high := by
  have l := low.toNat_lt
  rw [← UInt8.toNat_inj, toNat_high, toNat_word]
  omega

theorem word_high_low (w : UInt16) : word (high w) (low w) = w := by
  rw [← UInt16.toNat_inj, toNat_word, toNat_high, toNat_low]
  omega

end Word

namespace Bit

def test (b : UInt8) (i : Fin 8) : Bool := b >>> i.val.toUInt8 &&& 1 = 1

def mask (i : Fin 8) : UInt8 := 1 <<< i.val.toUInt8

theorem test_mask : ∀ i j : Fin 8, test (mask i) j = decide (i = j) := by decide

theorem toNat_shiftRight (b : UInt8) {k : UInt8} {q : Nat} (h : k < 8) (hq : 1 <<< k.toNat = q) :
    (b >>> k).toNat = b.toNat / q := by
  have hk : k.toNat % 8 = k.toNat := Nat.mod_eq_of_lt (UInt8.lt_iff_toNat_lt.1 h)
  rw [UInt8.toNat_shiftRight, hk, Nat.shiftRight_eq_div_pow, ← Nat.one_shiftLeft, hq]

theorem test_eq_testBit (b : UInt8) (i : Fin 8) : test b i = b.toNat.testBit i := by
  have hi : i.val.toUInt8 < 8 ∧ i.val.toUInt8.toNat = i.val := by
    revert i
    decide
  have e : (b >>> i.val.toUInt8 &&& 1).toNat = b.toNat / 2 ^ i.val % 2 := by
    rw [UInt8.toNat_and, toNat_shiftRight b hi.1 rfl, hi.2, Nat.one_shiftLeft]
    exact Nat.and_one_is_mod _
  rw [Nat.testBit_eq_decide_div_mod_eq, test, decide_eq_decide, ← UInt8.toNat_inj, e]
  rfl

theorem test_low (b : UInt8) : test b 0 = decide (b.toNat % 2 = 1) :=
  (test_eq_testBit b 0).trans (Nat.testBit_zero b.toNat)

def assign (b : UInt8) (i : Fin 8) (value : Bool) : UInt8 :=
  if value then b ||| mask i else b &&& ~~~mask i

end Bit

end SoundUnit
