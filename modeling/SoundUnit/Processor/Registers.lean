import SoundUnit.Processor.Status

namespace SoundUnit

inductive ByteRegister where
  | a | x | y
deriving DecidableEq

structure Registers where
  a : UInt8 := 0
  x : UInt8 := 0
  y : UInt8 := 0
  sp : UInt8 := 0
  pc : UInt16 := 0
  status : Status := {}
  /-- Set by an instruction that stops the processor for good. -/
  halted : Bool := false
deriving DecidableEq

namespace Registers

def get (r : Registers) : ByteRegister → UInt8
  | .a => r.a
  | .x => r.x
  | .y => r.y

def set (r : Registers) (name : ByteRegister) (value : UInt8) : Registers :=
  match name with
  | .a => { r with a := value }
  | .x => { r with x := value }
  | .y => { r with y := value }

def ya (r : Registers) : UInt16 := word r.y r.a

def setYA (r : Registers) (w : UInt16) : Registers := { r with a := Word.low w, y := Word.high w }

/-- The direct page is page 0 or page 1. -/
def directAddress (r : Registers) (offset : UInt8) : UInt16 :=
  word (if r.status.directPage then 1 else 0) offset

def stackAddress (r : Registers) : UInt16 := word 1 r.sp

def relative (r : Registers) (offset : UInt8) : UInt16 :=
  r.pc + offset.toInt8.toInt16.toUInt16

end Registers

end SoundUnit
