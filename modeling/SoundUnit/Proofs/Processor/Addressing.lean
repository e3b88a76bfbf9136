import SoundUnit.Proofs.Processor.Dispatch

namespace SoundUnit

open Exec

def Mode.length : Mode → UInt16
  | atX | atY => 0
  | direct | directX | directY | pointerX | pointerY => 1
  | absolute | absoluteX | absoluteY => 2

def Place.length : Place → UInt16
  | register _ => 0
  | memory mode => mode.length

def Operand.length : Operand → UInt16
  | immediate => 1
  | held place => place.length

/-- From the registers `r`, a mode selects an address after these reads. -/
inductive Mode.Selects (r : Registers) : Mode → List BusEvent → UInt16 → Prop
  | atX : Selects r .atX [] (r.directAddress r.x)
  | atY : Selects r .atY [] (r.directAddress r.y)
  | direct (d : UInt8) : Selects r .direct [.read r.pc d] (r.directAddress d)
  | directX (d : UInt8) : Selects r .directX [.read r.pc d] (r.directAddress (d + r.x))
  | directY (d : UInt8) : Selects r .directY [.read r.pc d] (r.directAddress (d + r.y))
  | absolute (low high : UInt8) :
    Selects r .absolute [.read r.pc low, .read (r.pc + 1) high] (word high low)
  | absoluteX (low high : UInt8) :
    Selects r .absoluteX [.read r.pc low, .read (r.pc + 1) high] (word high low + r.x.toUInt16)
  | absoluteY (low high : UInt8) :
    Selects r .absoluteY [.read r.pc low, .read (r.pc + 1) high] (word high low + r.y.toUInt16)
  | pointerX (d low high : UInt8) :
    Selects r .pointerX
      [.read r.pc d, .read (r.directAddress (d + r.x)) low, .read (r.directAddress (d + r.x + 1)) high] (word high low)
  | pointerY (d low high : UInt8) :
    Selects r .pointerY [.read r.pc d, .read (r.directAddress d) low, .read (r.directAddress (d + 1)) high]
      (word high low + r.y.toUInt16)

inductive Place.Locates (r : Registers) : Place → List BusEvent → Cell → Prop
  | register (name : ByteRegister) : Locates r (.register name) [] (.register name)
  | memory {mode : Mode} {log : List BusEvent} {addr : UInt16} (h : mode.Selects r log addr) :
    Locates r (.memory mode) log (.memory addr)

/-- With the registers `r`, a cell is found to hold this byte after these reads. -/
inductive Exec.Cell.Holds (r : Registers) : Cell → List BusEvent → UInt8 → Prop
  | register (name : ByteRegister) : Holds r (.register name) [] (r.get name)
  | memory (addr : UInt16) (data : UInt8) : Holds r (.memory addr) [.read addr data] data

inductive Operand.Gives (r : Registers) : Operand → List BusEvent → UInt8 → Prop
  | immediate (data : UInt8) : Gives r .immediate [.read r.pc data] data
  | held {place : Place} {log log' : List BusEvent} {cell : Cell} {data : UInt8} (h : place.Locates r log cell)
    (h' : cell.Holds r log' data) : Gives r (.held place) (log ++ log') data

def Exec.Cell.put (cell : Cell) (data : UInt8) (c : Core) : Core :=
  match cell with
  | register name => { c with registers := c.registers.set name data }
  | memory addr => { c with bus := c.bus.write addr data }

def Exec.Cell.putEvents (cell : Cell) (data : UInt8) : List BusEvent :=
  match cell with
  | register _ => []
  | memory addr => [.write addr data]

namespace Exec

variable (r : Registers) (b : Bus)

theorem fetchWord_run :
    ∃ low high b', b'.ram = b.ram ∧
      fetchWord.Run r b [.read r.pc low, .read (r.pc + 1) high] (word high low) (r.advance 2) b' := by
  have low := Run.fetch r b
  have high := Run.fetch (r.advance 1) (b.clearOutputAt r.pc)
  rw [r.advance_advance] at high
  refine ⟨_, _, _, ?_, low.bind (high.map (.pure _ _ _))⟩
  rfl

theorem readWord_run (addr : UInt16) : ∃ log w b', b'.ram = b.ram ∧ (readWord addr).Run r b log w r b' := by
  have low := Run.readByte addr r b
  have high := Run.readByte (addr + 1) r (b.clearOutputAt addr)
  refine ⟨_, _, _, ?_, low.bind (high.map (.pure _ _ _))⟩
  rfl

theorem readDirectWord_run (offset : UInt8) :
    let b₁ := b.clearOutputAt (r.directAddress offset)
    let low := b.peek (r.directAddress offset)
    let high := b₁.peek (r.directAddress (offset + 1))
    (readDirectWord offset).Run r b [.read (r.directAddress offset) low, .read (r.directAddress (offset + 1)) high]
      (word high low) r (b₁.clearOutputAt (r.directAddress (offset + 1))) := by
  intro b₁ low high
  have hl := Run.readByte (r.directAddress offset) r b
  have hh := Run.readByte (r.directAddress (offset + 1)) r b₁
  exact (Run.get r b).bind (hl.bind (hh.map (.pure _ _ _)))

theorem address_run (mode : Mode) :
    ∃ log addr b', mode.Selects r log addr ∧ (address mode).Run r b log addr (r.advance mode.length) b' := by
  cases mode with
  | atX =>
    refine ⟨_, _, b, .atX, ?_⟩
    rw [Mode.length, r.advance_zero]
    exact (Run.get r b).bind ((Run.get r b).map (.pure _ r b))
  | atY =>
    refine ⟨_, _, b, .atY, ?_⟩
    rw [Mode.length, r.advance_zero]
    exact (Run.get r b).bind ((Run.get r b).map (.pure _ r b))
  | direct =>
    have h := Run.fetch r b
    exact ⟨_, _, _, .direct _, h.map ((Run.get _ _).map (.pure _ _ _))⟩
  | directX =>
    have h := Run.fetch r b
    exact ⟨_, _, _, .directX _, h.map ((Run.get _ _).bind ((Run.get _ _).map (.pure _ _ _)))⟩
  | directY =>
    have h := Run.fetch r b
    exact ⟨_, _, _, .directY _, h.map ((Run.get _ _).bind ((Run.get _ _).map (.pure _ _ _)))⟩
  | absolute =>
    obtain ⟨low, high, b', -, h⟩ := fetchWord_run r b
    exact ⟨_, _, b', .absolute low high, h⟩
  | absoluteX =>
    obtain ⟨low, high, b', -, h⟩ := fetchWord_run r b
    exact ⟨_, _, b', .absoluteX low high, h.map ((Run.get _ _).map (.pure _ _ _))⟩
  | absoluteY =>
    obtain ⟨low, high, b', -, h⟩ := fetchWord_run r b
    exact ⟨_, _, b', .absoluteY low high, h.map ((Run.get _ _).map (.pure _ _ _))⟩
  | pointerX =>
    have h := Run.fetch r b
    have h' := readDirectWord_run (r.advance 1) (b.clearOutputAt r.pc) (b.peek r.pc + r.x)
    exact ⟨_, _, _, .pointerX _ _ _, h.bind ((Run.get _ _).bind h')⟩
  | pointerY =>
    have h := Run.fetch r b
    have h' := readDirectWord_run (r.advance 1) (b.clearOutputAt r.pc) (b.peek r.pc)
    exact ⟨_, _, _, .pointerY _ _ _, h.bind (h'.map ((Run.get _ _).map (.pure _ _ _)))⟩

theorem locate_run (place : Place) :
    ∃ log cell b', place.Locates r log cell ∧ (locate place).Run r b log cell (r.advance place.length) b' := by
  cases place with
  | register name =>
    refine ⟨_, _, b, .register name, ?_⟩
    rw [Place.length, r.advance_zero]
    exact .pure _ r b
  | memory mode =>
    obtain ⟨log, addr, b', hs, h⟩ := address_run r b mode
    exact ⟨log, _, b', .memory hs, h.map (.pure _ _ _)⟩

theorem readCell_run (cell : Cell) :
    ∃ log data b', cell.Holds r log data ∧ (readCell cell).Run r b log data r b' := by
  cases cell with
  | register name => exact ⟨_, _, b, .register name, (Run.get r b).map (.pure _ r b)⟩
  | memory addr => exact ⟨_, _, _, .memory addr _, .readByte addr r b⟩

theorem Cell.Holds.of_advance {cell : Cell} {n : UInt16} {log : List BusEvent} {data : UInt8}
    (h : cell.Holds (r.advance n) log data) : cell.Holds r log data := by
  cases h with
  | register name =>
    have hr : (r.advance n).get name = r.get name := by cases name <;> rfl
    rw [hr]
    exact .register name
  | memory addr data => exact .memory addr data

theorem readOperand_run (operand : Operand) :
    ∃ log data b', operand.Gives r log data ∧ (readOperand operand).Run r b log data (r.advance operand.length) b' := by
  cases operand with
  | immediate => exact ⟨_, _, _, .immediate _, .fetch r b⟩
  | held place =>
    obtain ⟨log, cell, b₁, hl, h₁⟩ := locate_run r b place
    obtain ⟨log', data, b₂, hh, h₂⟩ := readCell_run (r.advance place.length) b₁ cell
    exact ⟨_, data, b₂, .held hl (hh.of_advance r), h₁.bind h₂⟩

theorem writeCell_run (cell : Cell) (data : UInt8) :
    (writeCell cell data).Run r b (cell.putEvents data) () (cell.put data ⟨r, b⟩).registers
      (cell.put data ⟨r, b⟩).bus := by
  cases cell with
  | register name => exact .modify _ r b
  | memory addr => exact .writeByte addr data r b

end Exec

end SoundUnit
