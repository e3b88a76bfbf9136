import SoundUnit.Processor.Access
import SoundUnit.Processor.OpcodeMatrix

namespace SoundUnit

/-- A piece of an instruction: it works on the registers and on memory. -/
abbrev Exec := StateT Registers Access

namespace Exec

def readByte (addr : UInt16) : Exec UInt8 := fun r ↦ .read addr fun data ↦ .done (data, r)

def writeByte (addr : UInt16) (data : UInt8) : Exec Unit := fun r ↦ .write addr data (.done ((), r))

def fetch : Exec UInt8 := fun r ↦ .read r.pc fun data ↦ .done (data, { r with pc := r.pc + 1 })

def readWord (addr : UInt16) : Exec UInt16 := do
  let low ← readByte addr
  let high ← readByte (addr + 1)
  return word high low

def fetchWord : Exec UInt16 := do
  let low ← fetch
  let high ← fetch
  return word high low

/-- The word at two cells of the direct page; the second one wraps inside the page. -/
def readDirectWord (offset : UInt8) : Exec UInt16 := do
  let r ← get
  let low ← readByte (r.directAddress offset)
  let high ← readByte (r.directAddress (offset + 1))
  return word high low

def writeDirectWord (offset : UInt8) (w : UInt16) : Exec Unit := do
  let r ← get
  writeByte (r.directAddress offset) (Word.low w)
  writeByte (r.directAddress (offset + 1)) (Word.high w)

def pushByte (data : UInt8) : Exec Unit := fun r ↦
  .write r.stackAddress data (.done ((), { r with sp := r.sp - 1 }))

def popByte : Exec UInt8 := fun r ↦
  let r := { r with sp := r.sp + 1 }
  .read r.stackAddress fun data ↦ .done (data, r)

def pushWord (w : UInt16) : Exec Unit := do
  pushByte (Word.high w)
  pushByte (Word.low w)

def popWord : Exec UInt16 := do
  let low ← popByte
  let high ← popByte
  return word high low

def address : Mode → Exec UInt16
  | .atX => return (← get).directAddress (← get).x
  | .atY => return (← get).directAddress (← get).y
  | .direct => do
    let offset ← fetch
    return (← get).directAddress offset
  | .directX => do
    let offset ← fetch
    return (← get).directAddress (offset + (← get).x)
  | .directY => do
    let offset ← fetch
    return (← get).directAddress (offset + (← get).y)
  | .absolute => fetchWord
  | .absoluteX => do
    let base ← fetchWord
    return base + (← get).x.toUInt16
  | .absoluteY => do
    let base ← fetchWord
    return base + (← get).y.toUInt16
  | .pointerX => do
    let offset ← fetch
    readDirectWord (offset + (← get).x)
  | .pointerY => do
    let offset ← fetch
    let base ← readDirectWord offset
    return base + (← get).y.toUInt16

/-- A place whose address is known. -/
inductive Cell where
  | register (r : ByteRegister)
  | memory (addr : UInt16)

def locate : Place → Exec Cell
  | .register name => return .register name
  | .memory mode => return .memory (← address mode)

def readCell : Cell → Exec UInt8
  | .register name => return (← get).get name
  | .memory addr => readByte addr

def writeCell (cell : Cell) (data : UInt8) : Exec Unit :=
  match cell with
  | .register name => modify fun r ↦ r.set name data
  | .memory addr => writeByte addr data

def readOperand : Operand → Exec UInt8
  | .immediate => fetch
  | .held place => do readCell (← locate place)

def withStatus {α : Type} (f : Status → α × Status) : Exec α := do
  let r ← get
  let (a, status) := f r.status
  set { r with status }
  return a

def setStatus (f : Status → Status) : Exec Unit :=
  modify fun r ↦ { r with status := f r.status }

/-- The address of a bit operand and the number of the bit: thirteen bits and three. -/
def bitAddress : Exec (UInt16 × Fin 8) := do
  let w ← fetchWord
  return (w &&& 0x1FFF, Fin.ofNat 8 (w >>> 13).toNat)

/-- Fetches the offset of a branch and follows it if the condition holds; the extra clocks are the result. -/
def branchIf (condition : Bool) : Exec Nat := do
  let offset ← fetch
  if condition then
    modify fun r ↦ { r with pc := r.relative offset }
    return Instruction.branchClocks
  return 0

def pushReturn : Exec Unit := do pushWord (← get).pc

def jumpTo (addr : UInt16) : Exec Unit := modify fun r ↦ { r with pc := addr }

end Exec

/-- The address of the first entry of the call table; the others follow downwards. -/
def callTable : UInt16 := 0xFFDE

/-- The high byte of the addresses that a page call reaches. -/
def callPage : UInt8 := 0xFF

def Flag.get (s : Status) : Flag → Bool
  | .negative => s.negative
  | .overflow => s.overflow
  | .carry => s.carry
  | .zero => s.zero

def Switch.set (s : Status) (value : Bool) : Switch → Status
  | .carry => { s with carry := value }
  | .directPage => { s with directPage := value }
  | .interrupt => { s with interrupt := value }

def CarryOp.apply (carry bit : Bool) : CarryOp → Bool
  | .and inverted => carry && (bit != inverted)
  | .or inverted => carry || (bit != inverted)
  | .xor => carry != bit
  | .load => bit

namespace Instruction

open Exec

/-- Executes an instruction whose opcode has been fetched. The result is the number of clocks it takes beyond those
that the opcode matrix lists. -/
def execute : Instruction → Exec Nat
  | binary op target source => do
    let b ← readOperand source
    let cell ← locate target
    let a ← readCell cell
    if let some result ← withStatus (op.apply a b) then writeCell cell result
    return 0
  | unary op target => do
    let cell ← locate target
    let result ← withStatus (op.apply (← readCell cell))
    writeCell cell result
    return 0
  | wide op => do
    let w ← readDirectWord (← fetch)
    let ya := (← get).ya
    if let some result ← withStatus (op.apply ya w) then modify (·.setYA result)
    return 0
  | incrementWide => do
    let offset ← fetch
    let w ← readDirectWord offset
    setStatus (·.ofWideResult (w + 1))
    writeDirectWord offset (w + 1)
    return 0
  | decrementWide => do
    let offset ← fetch
    let w ← readDirectWord offset
    setStatus (·.ofWideResult (w - 1))
    writeDirectWord offset (w - 1)
    return 0
  | load target source => do
    let data ← readOperand source
    setStatus (·.ofResult data)
    modify (·.set target data)
    return 0
  | store target source => do
    let data := (← get).get source
    let addr ← address target
    discard <| readByte addr
    writeByte addr data
    return 0
  | loadWide => do
    let w ← readDirectWord (← fetch)
    modify (·.setYA w)
    setStatus (·.ofWideResult w)
    return 0
  | storeWide => do
    let offset ← fetch
    discard <| readByte ((← get).directAddress offset)
    writeDirectWord offset (← get).ya
    return 0
  | loadAdvance => do
    let data ← readByte (← address .atX)
    modify fun r ↦ { r with a := data, x := r.x + 1, status := r.status.ofResult data }
    return 0
  | storeAdvance => do
    writeByte (← address .atX) (← get).a
    modify fun r ↦ { r with x := r.x + 1 }
    return 0
  | storeImmediate => do
    let data ← fetch
    let addr ← address .direct
    discard <| readByte addr
    writeByte addr data
    return 0
  | copyDirect => do
    let data ← readByte (← address .direct)
    writeByte (← address .direct) data
    return 0
  | loadStackPointer => do
    modify fun r ↦ { r with x := r.sp, status := r.status.ofResult r.sp }
    return 0
  | setStackPointer => do
    modify fun r ↦ { r with sp := r.x }
    return 0
  | swapNybbles => do
    modify fun r ↦
      let a := Arithmetic.swapNybbles r.a
      { r with a, status := r.status.ofResult a }
    return 0
  | multiply => do
    let r ← get
    modify (·.setYA (← withStatus (Arithmetic.multiply r.y r.a)))
    return 0
  | divide => do
    modify fun r ↦
      let (a, y, status) := Arithmetic.divide r.y r.a r.x r.status
      { r with a, y, status }
    return 0
  | decimalAdjustAdd => do
    modify fun r ↦
      let (a, status) := Arithmetic.decimalAdjustAdd r.a r.status
      { r with a, status }
    return 0
  | decimalAdjustSubtract => do
    modify fun r ↦
      let (a, status) := Arithmetic.decimalAdjustSubtract r.a r.status
      { r with a, status }
    return 0
  | switch flag value => do
    setStatus fun s ↦ flag.set s value
    return 0
  | clearOverflow => do
    setStatus fun s ↦ { s with overflow := false, halfCarry := false }
    return 0
  | complementCarry => do
    setStatus fun s ↦ { s with carry := !s.carry }
    return 0
  | assignBit i value => do
    let addr ← address .direct
    let data ← readByte addr
    writeByte addr (Bit.assign data i value)
    return 0
  | assignMask value => do
    let addr ← fetchWord
    let data ← readByte addr
    let a := (← get).a
    setStatus (·.ofResult (a - data))
    writeByte addr (if value then data ||| a else data &&& ~~~a)
    return 0
  | carryBit op => do
    let (addr, i) ← bitAddress
    let data ← readByte addr
    setStatus fun s ↦ { s with carry := op.apply s.carry (Bit.test data i) }
    return 0
  | complementBit => do
    let (addr, i) ← bitAddress
    let data ← readByte addr
    writeByte addr (data ^^^ Bit.mask i)
    return 0
  | storeCarry => do
    let (addr, i) ← bitAddress
    let data ← readByte addr
    writeByte addr (Bit.assign data i (← get).status.carry)
    return 0
  | branchAlways => do
    let offset ← fetch
    modify fun r ↦ { r with pc := r.relative offset }
    return 0
  | branch flag value => do
    branchIf (flag.get (← get).status == value)
  | branchBit i value => do
    let data ← readByte (← address .direct)
    branchIf (Bit.test data i == value)
  | branchUnequal mode => do
    let data ← readByte (← address mode)
    branchIf ((← get).a ≠ data)
  | countDirect => do
    let addr ← address .direct
    let data := (← readByte addr) - 1
    writeByte addr data
    branchIf (data ≠ 0)
  | countY => do
    modify fun r ↦ { r with y := r.y - 1 }
    branchIf ((← get).y ≠ 0)
  | jump => do
    jumpTo (← fetchWord)
    return 0
  | jumpIndexed => do
    let addr ← address .absoluteX
    jumpTo (← readWord addr)
    return 0
  | call => do
    let addr ← fetchWord
    pushReturn
    jumpTo addr
    return 0
  | callPage => do
    let offset ← fetch
    pushReturn
    jumpTo (word SoundUnit.callPage offset)
    return 0
  | callTable n => do
    pushReturn
    jumpTo (← readWord (SoundUnit.callTable - 2 * n.val.toUInt16))
    return 0
  | trap => do
    pushReturn
    pushByte (← get).status.toByte
    setStatus fun s ↦ { s with breakFlag := true, interrupt := false }
    jumpTo (← readWord SoundUnit.callTable)
    return 0
  | ret => do
    jumpTo (← popWord)
    return 0
  | retTrap => do
    let status ← popByte
    setStatus fun _ ↦ .ofByte status
    jumpTo (← popWord)
    return 0
  | push (.register name) => do
    pushByte ((← get).get name)
    return 0
  | push .status => do
    pushByte (← get).status.toByte
    return 0
  | pop (.register name) => do
    let data ← popByte
    modify (·.set name data)
    return 0
  | pop .status => do
    let data ← popByte
    setStatus fun _ ↦ .ofByte data
    return 0
  | nop => return 0
  | halt => do
    modify fun r ↦ { r with halted := true }
    return 0

end Instruction

/-- Fetches and executes one instruction. The result is the number of clocks it takes. -/
def Exec.instruction : Exec Nat := do
  let opcode ← Exec.fetch
  let extra ← (Instruction.ofOpcode opcode).execute
  return Instruction.baseClocks opcode + extra

end SoundUnit
