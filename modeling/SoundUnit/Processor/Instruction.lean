import SoundUnit.Processor.Arithmetic
import SoundUnit.Processor.Registers

namespace SoundUnit

inductive Mode where
  | atX
  | atY
  | direct
  | directX
  | directY
  | absolute
  | absoluteX
  | absoluteY
  /-- The address kept in the direct page at an offset plus X. -/
  | pointerX
  /-- The address kept in the direct page at an offset, plus Y. -/
  | pointerY
deriving DecidableEq

inductive Place where
  | register (r : ByteRegister)
  | memory (mode : Mode)
deriving DecidableEq

inductive Operand where
  | immediate
  | held (place : Place)
deriving DecidableEq

/-- What the carry becomes from itself and a bit of memory. -/
inductive CarryOp where
  | and (inverted : Bool)
  | or (inverted : Bool)
  | xor
  | load
deriving DecidableEq

inductive Flag where
  | negative | overflow | carry | zero
deriving DecidableEq

inductive Switch where
  | carry | directPage | interrupt
deriving DecidableEq

inductive Stacked where
  | register (r : ByteRegister)
  | status
deriving DecidableEq

inductive Instruction where
  | binary (op : BinaryOp) (target : Place) (source : Operand)
  | unary (op : UnaryOp) (target : Place)
  | wide (op : WideOp)
  | incrementWide
  | decrementWide
  | load (target : ByteRegister) (source : Operand)
  | store (target : Mode) (source : ByteRegister)
  | loadWide
  | storeWide
  /-- Loads A from the cell at X, then advances X. -/
  | loadAdvance
  | storeAdvance
  | storeImmediate
  | copyDirect
  | loadStackPointer
  | setStackPointer
  | swapNybbles
  | multiply
  | divide
  | decimalAdjustAdd
  | decimalAdjustSubtract
  | switch (flag : Switch) (value : Bool)
  | clearOverflow
  | complementCarry
  | assignBit (i : Fin 8) (value : Bool)
  /-- Sets or clears in memory the bits that are set in A. -/
  | assignMask (value : Bool)
  | carryBit (op : CarryOp)
  | complementBit
  | storeCarry
  | branchAlways
  | branch (flag : Flag) (value : Bool)
  | branchBit (i : Fin 8) (value : Bool)
  | branchUnequal (mode : Mode)
  /-- Counts down the cell of the direct page and branches unless it is zero. -/
  | countDirect
  /-- Counts down Y and branches unless it is zero. -/
  | countY
  | jump
  | jumpIndexed
  | call
  | callPage
  | callTable (n : Fin 16)
  | trap
  | ret
  | retTrap
  | push (r : Stacked)
  | pop (r : Stacked)
  | nop
  | halt
deriving DecidableEq

end SoundUnit
