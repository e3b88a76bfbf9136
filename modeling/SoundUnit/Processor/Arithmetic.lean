import SoundUnit.Processor.Status

namespace SoundUnit

/-- Operations on two bytes, in the order of the rows of the opcode matrix. -/
inductive BinaryOp where
  | or | and | xor | compare | add | subtract
deriving DecidableEq

inductive UnaryOp where
  | shiftLeft | rotateLeft | shiftRight | rotateRight | decrement | increment
deriving DecidableEq

inductive WideOp where
  | add | subtract | compare
deriving DecidableEq

namespace Arithmetic

def addCarry (a b : UInt8) (s : Status) : UInt8 × Status :=
  let total := a.toNat + b.toNat + s.carry.toNat
  let result := total.toUInt8
  let s := s.ofResult result
  (result, { s with
    overflow := (~~~(a ^^^ b) &&& (a ^^^ result) &&& 0x80) ≠ 0
    halfCarry := ((a ^^^ b ^^^ result) &&& 0x10) ≠ 0
    carry := 0xFF < total })

/-- The result of a comparison shows in the flags only; a borrow clears the carry. -/
def compare (a b : UInt8) (s : Status) : Status :=
  { s.ofResult (a - b) with carry := b ≤ a }

def compareWide (a b : UInt16) (s : Status) : Status :=
  { s.ofWideResult (a - b) with carry := b ≤ a }

def addWide (a b : UInt16) (s : Status) : UInt16 × Status :=
  let (low, s) := addCarry (Word.low a) (Word.low b) { s with carry := false }
  let (high, s) := addCarry (Word.high a) (Word.high b) s
  (word high low, { s with zero := low = 0 ∧ high = 0 })

def subtractWide (a b : UInt16) (s : Status) : UInt16 × Status :=
  let (low, s) := addCarry (Word.low a) (~~~Word.low b) { s with carry := true }
  let (high, s) := addCarry (Word.high a) (~~~Word.high b) s
  (word high low, { s with zero := low = 0 ∧ high = 0 })

def shiftLeft (b : UInt8) (s : Status) : UInt8 × Status :=
  let result := b <<< 1
  (result, { s.ofResult result with carry := Bit.test b 7 })

def shiftRight (b : UInt8) (s : Status) : UInt8 × Status :=
  let result := b >>> 1
  (result, { s.ofResult result with carry := Bit.test b 0 })

def rotateLeft (b : UInt8) (s : Status) : UInt8 × Status :=
  let result := b <<< 1 ||| s.carry.toUInt8
  (result, { s.ofResult result with carry := Bit.test b 7 })

def rotateRight (b : UInt8) (s : Status) : UInt8 × Status :=
  let result := b >>> 1 ||| s.carry.toUInt8 <<< 7
  (result, { s.ofResult result with carry := Bit.test b 0 })

def swapNybbles (b : UInt8) : UInt8 := b >>> 4 ||| b <<< 4

def multiply (y a : UInt8) (s : Status) : UInt16 × Status :=
  let product := y.toUInt16 * a.toUInt16
  (product, s.ofResult (Word.high product))

/-- Division of YA by X: the new A and Y. A quotient that needs more than nine bits has no room, and the divider then
counts with the complement of X. -/
def divide (y a x : UInt8) (s : Status) : UInt8 × UInt8 × Status :=
  let dividend := y.toNat * 256 + a.toNat
  let divisor := x.toNat
  let (quotient, remainder) :=
    if y.toNat < 2 * divisor then (dividend / divisor, dividend % divisor)
    else
      let excess := dividend - 512 * divisor
      (255 - excess / (256 - divisor), divisor + excess % (256 - divisor))
  (quotient.toUInt8, remainder.toUInt8,
    { s.ofResult quotient.toUInt8 with overflow := x ≤ y, halfCarry := x &&& 0xF ≤ y &&& 0xF })

/-- Makes the sum of two packed decimal bytes packed decimal again. -/
def decimalAdjustAdd (a : UInt8) (s : Status) : UInt8 × Status :=
  let (a, s) := if s.carry ∨ 0x99 < a then (a + 0x60, { s with carry := true }) else (a, s)
  let a := if s.halfCarry ∨ 9 < a &&& 0xF then a + 6 else a
  (a, s.ofResult a)

/-- Makes the difference of two packed decimal bytes packed decimal again. -/
def decimalAdjustSubtract (a : UInt8) (s : Status) : UInt8 × Status :=
  let (a, s) := if !s.carry ∨ 0x99 < a then (a - 0x60, { s with carry := false }) else (a, s)
  let a := if !s.halfCarry ∨ 9 < a &&& 0xF then a - 6 else a
  (a, s.ofResult a)

end Arithmetic

open Arithmetic

/-- The result to write back, if the operation has one, and the flags. -/
def BinaryOp.apply : BinaryOp → UInt8 → UInt8 → Status → Option UInt8 × Status
  | .or, a, b, s => (some (a ||| b), s.ofResult (a ||| b))
  | .and, a, b, s => (some (a &&& b), s.ofResult (a &&& b))
  | .xor, a, b, s => (some (a ^^^ b), s.ofResult (a ^^^ b))
  | .compare, a, b, s => (none, Arithmetic.compare a b s)
  | .add, a, b, s => let (r, s) := addCarry a b s; (some r, s)
  | .subtract, a, b, s => let (r, s) := addCarry a (~~~b) s; (some r, s)

def UnaryOp.apply : UnaryOp → UInt8 → Status → UInt8 × Status
  | .shiftLeft => Arithmetic.shiftLeft
  | .rotateLeft => Arithmetic.rotateLeft
  | .shiftRight => Arithmetic.shiftRight
  | .rotateRight => Arithmetic.rotateRight
  | .decrement => fun b s ↦ (b - 1, s.ofResult (b - 1))
  | .increment => fun b s ↦ (b + 1, s.ofResult (b + 1))

def WideOp.apply : WideOp → UInt16 → UInt16 → Status → Option UInt16 × Status
  | .add, a, b, s => let (r, s) := addWide a b s; (some r, s)
  | .subtract, a, b, s => let (r, s) := subtractWide a b s; (some r, s)
  | .compare, a, b, s => (none, compareWide a b s)

end SoundUnit
