import SoundUnit.Word

namespace SoundUnit

structure Status where
  negative : Bool := false
  overflow : Bool := false
  directPage : Bool := false
  breakFlag : Bool := false
  halfCarry : Bool := false
  interrupt : Bool := false
  zero : Bool := false
  carry : Bool := false
deriving DecidableEq

namespace Status

/-- Every bit of the byte is a flag, from `negative` down to `carry`. -/
def ofByte (b : UInt8) : Status where
  negative := Bit.test b 7
  overflow := Bit.test b 6
  directPage := Bit.test b 5
  breakFlag := Bit.test b 4
  halfCarry := Bit.test b 3
  interrupt := Bit.test b 2
  zero := Bit.test b 1
  carry := Bit.test b 0

def toByte (s : Status) : UInt8 :=
  s.negative.toUInt8 <<< 7 ||| s.overflow.toUInt8 <<< 6 ||| s.directPage.toUInt8 <<< 5 |||
    s.breakFlag.toUInt8 <<< 4 ||| s.halfCarry.toUInt8 <<< 3 ||| s.interrupt.toUInt8 <<< 2 |||
    s.zero.toUInt8 <<< 1 ||| s.carry.toUInt8

/-- The flags after a byte result: its sign bit and whether it is zero. -/
def ofResult (s : Status) (b : UInt8) : Status :=
  { s with negative := 0x80 ≤ b, zero := b = 0 }

def ofWideResult (s : Status) (w : UInt16) : Status :=
  { s with negative := 0x8000 ≤ w, zero := w = 0 }

theorem ofByte_toByte (s : Status) : ofByte s.toByte = s := by
  obtain ⟨n, v, p, b, h, i, z, c⟩ := s
  revert n v p b h i z c
  decide

theorem toByte_ofByte (b : UInt8) : (ofByte b).toByte = b := by
  have all : ∀ n : Fin 256, (ofByte (UInt8.ofNat n)).toByte = UInt8.ofNat n := by decide +kernel
  simpa using all ⟨b.toNat, b.toNat_lt⟩

end Status

end SoundUnit
