import SoundUnit.Proofs.Checked.Processor
import SoundUnit.Proofs.Processor.Addressing
import SoundUnit.Proofs.Processor.Outcomes

namespace SoundUnit

open Exec

namespace Grid

def binaryOps : Vector BinaryOp 6 := #v[.or, .and, .xor, .compare, .add, .subtract]

def unaryOps : Vector UnaryOp 6 :=
  #v[.shiftLeft, .rotateLeft, .shiftRight, .rotateRight, .decrement, .increment]

def opcode (code : UInt8) (row : Fin 6) : UInt8 := 0x20 * UInt8.ofNat row + code

/-- In a column of the opcode matrix the row, counted in pairs, selects an operation and the column selects the
operands; so its six opcodes differ in what is done with the bytes only. -/
structure BinaryColumn where
  code : UInt8
  target : Place
  source : Operand
  clocks : Nat

structure UnaryColumn where
  code : UInt8
  target : Place
  clocks : Nat

def binaryColumns : Vector BinaryColumn 12 := #v[
  ⟨0x04, .register .a, .held (.memory .direct), 3⟩,
  ⟨0x05, .register .a, .held (.memory .absolute), 4⟩,
  ⟨0x06, .register .a, .held (.memory .atX), 3⟩,
  ⟨0x07, .register .a, .held (.memory .pointerX), 6⟩,
  ⟨0x08, .register .a, .immediate, 2⟩,
  ⟨0x09, .memory .direct, .held (.memory .direct), 6⟩,
  ⟨0x14, .register .a, .held (.memory .directX), 4⟩,
  ⟨0x15, .register .a, .held (.memory .absoluteX), 5⟩,
  ⟨0x16, .register .a, .held (.memory .absoluteY), 5⟩,
  ⟨0x17, .register .a, .held (.memory .pointerY), 6⟩,
  ⟨0x18, .memory .direct, .immediate, 5⟩,
  ⟨0x19, .memory .atX, .held (.memory .atY), 5⟩]

def unaryColumns : Vector UnaryColumn 4 := #v[
  ⟨0x0B, .memory .direct, 4⟩,
  ⟨0x0C, .memory .absolute, 5⟩,
  ⟨0x1B, .memory .directX, 5⟩,
  ⟨0x1C, .register .a, 2⟩]

theorem binary_decode : ∀ (row : Fin 6) (i : Fin 12),
    Instruction.ofOpcode (opcode (binaryColumns.get i).code row) =
        .binary (binaryOps.get row) (binaryColumns.get i).target (binaryColumns.get i).source ∧
      Instruction.baseClocks (opcode (binaryColumns.get i).code row) = (binaryColumns.get i).clocks := by
  decide +kernel

theorem unary_decode : ∀ (row : Fin 6) (i : Fin 4),
    Instruction.ofOpcode (opcode (unaryColumns.get i).code row) =
        .unary (unaryOps.get row) (unaryColumns.get i).target ∧
      Instruction.baseClocks (opcode (unaryColumns.get i).code row) = (unaryColumns.get i).clocks := by
  decide +kernel

end Grid

namespace Exec

def Cell.finish (cell : Cell) (result : Option UInt8) (c : Core) : Core :=
  match result with
  | none => c
  | some data => cell.put data c

def Cell.finishEvents (cell : Cell) (result : Option UInt8) : List BusEvent :=
  match result with
  | none => []
  | some data => cell.putEvents data

theorem writeBack_run (r : Registers) (b : Bus) (cell : Cell) (result : Option UInt8) :
    (writeBack cell result).Run r b (cell.finishEvents result) 0 (cell.finish result ⟨r, b⟩).registers
      (cell.finish result ⟨r, b⟩).bus := by
  cases result with
  | none => exact .pure 0 r b
  | some data => exact (writeCell_run r b cell data).map (.pure _ _ _)

end Exec

namespace Grid

/-- The operands that an opcode of a column has in a state, with the reads that find them: those of the source come
first, then the target is located and read. -/
structure BinaryColumn.Operands (column : BinaryColumn) (c : Core) where
  source : UInt8
  sourceReads : List BusEvent
  gives : column.source.Gives c.registers sourceReads source
  cell : Cell
  cellReads : List BusEvent
  locates : column.target.Locates (c.registers.advance column.source.length) cellReads cell
  target : UInt8
  targetReads : List BusEvent
  holds : cell.Holds c.registers targetReads target
  bus : Bus
  history : c.bus.History (sourceReads ++ (cellReads ++ targetReads)) bus

structure UnaryColumn.Operands (column : UnaryColumn) (c : Core) where
  cell : Cell
  cellReads : List BusEvent
  locates : column.target.Locates c.registers cellReads cell
  target : UInt8
  targetReads : List BusEvent
  holds : cell.Holds c.registers targetReads target
  bus : Bus
  history : c.bus.History (cellReads ++ targetReads) bus

namespace BinaryColumn.Operands

variable {column : BinaryColumn} {c : Core} (o : column.Operands c)

def reads : List BusEvent := o.sourceReads ++ (o.cellReads ++ o.targetReads)

/-- The state after an operation on the operands: the flags are those of the operation, and a result is in the cell. -/
def after (op : BinaryOp) : Core :=
  let outcome := op.outcome o.target o.source c.registers.status
  o.cell.finish (outcome.1.map UInt8.ofNat)
    { registers := { c.registers.advance (column.source.length + column.target.length) with status := outcome.2 }
      bus := o.bus }

def writes (op : BinaryOp) : List BusEvent :=
  o.cell.finishEvents ((op.outcome o.target o.source c.registers.status).1.map UInt8.ofNat)

end BinaryColumn.Operands

namespace UnaryColumn.Operands

variable {column : UnaryColumn} {c : Core} (o : column.Operands c)

def reads : List BusEvent := o.cellReads ++ o.targetReads

def after (op : UnaryOp) : Core :=
  let outcome := op.outcome o.target c.registers.status
  o.cell.put (UInt8.ofNat outcome.1)
    { registers := { c.registers.advance column.target.length with status := outcome.2 }, bus := o.bus }

def writes (op : UnaryOp) : List BusEvent :=
  o.cell.putEvents (UInt8.ofNat (op.outcome o.target c.registers.status).1)

end UnaryColumn.Operands

theorem target_run (target : Place) (r : Registers) (b : Bus) :
    ∃ cell log log' data b₁ b', target.Locates r log cell ∧ cell.Holds r log' data ∧
      (locate target).Run r b log cell (r.advance target.length) b₁ ∧
      (readCell cell).Run (r.advance target.length) b₁ log' data (r.advance target.length) b' := by
  obtain ⟨log, cell, b₁, hl, h₁⟩ := locate_run r b target
  obtain ⟨log', data, b', hh, h₂⟩ := readCell_run (r.advance target.length) b₁ cell
  exact ⟨cell, log, log', data, b₁, b', hl, hh.of_advance r, h₁, h₂⟩

theorem execute_binary (op : BinaryOp) (target : Place) (source : Operand) :
    (Instruction.binary op target source).execute = (do
      let b ← readOperand source
      let cell ← locate target
      let a ← readCell cell
      let result ← withStatus (op.apply a b)
      writeBack cell result) := rfl

theorem binary_run (column : BinaryColumn) (c : Core) :
    ∃ o : column.Operands c, ∀ op : BinaryOp,
      (Instruction.binary op column.target column.source).execute.Run c.registers c.bus (o.reads ++ o.writes op) 0
        (o.after op).registers (o.after op).bus := by
  obtain ⟨sourceReads, source, b₁, gives, h₁⟩ := readOperand_run c.registers c.bus column.source
  obtain ⟨cell, cellReads, targetReads, target, b₂, bus, locates, holds, h₂, h₃⟩ :=
    target_run column.target (c.registers.advance column.source.length) b₁
  have history := h₁.history.append (h₂.history.append h₃.history)
  refine ⟨⟨source, sourceReads, gives, cell, cellReads, locates, target, targetReads, holds.of_advance _, bus,
    history⟩, ?_⟩
  intro op
  rw [Registers.advance_advance] at h₂ h₃
  have h₄ := Run.withStatus (op.apply target source)
    (c.registers.advance (column.source.length + column.target.length)) bus
  rw [op.apply_eq] at h₄
  unfold BinaryColumn.Operands.reads
  rw [List.append_assoc, List.append_assoc, execute_binary]
  exact h₁.bind (h₂.bind (h₃.bind (h₄.bind (writeBack_run _ bus cell _))))

theorem unary_run (column : UnaryColumn) (c : Core) :
    ∃ o : column.Operands c, ∀ op : UnaryOp,
      (Instruction.unary op column.target).execute.Run c.registers c.bus (o.reads ++ o.writes op) 0
        (o.after op).registers (o.after op).bus := by
  obtain ⟨cell, cellReads, targetReads, target, b₁, bus, locates, holds, h₁, h₂⟩ :=
    target_run column.target c.registers c.bus
  refine ⟨⟨cell, cellReads, locates, target, targetReads, holds, bus, h₁.history.append h₂.history⟩, ?_⟩
  intro op
  have h₃ := Run.withStatus (op.apply target) (c.registers.advance column.target.length) bus
  rw [op.apply_eq] at h₃
  unfold UnaryColumn.Operands.reads
  rw [List.append_assoc]
  exact h₁.bind (h₂.bind (h₃.bind ((writeCell_run _ bus cell _).map (.pure _ _ _))))

end Grid

end SoundUnit
