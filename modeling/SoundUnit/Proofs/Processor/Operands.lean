import SoundUnit.Proofs.Processor.Grid

namespace SoundUnit

open Exec

namespace Bus

variable {b b' c : Bus} {addr : UInt16} {data : UInt8} {log log' : List BusEvent}

theorem history_nil_iff : b.History [] b' ↔ b = b' := by
  constructor
  · intro h
    cases h
    rfl
  · intro h
    rw [h]
    exact .nil b'

theorem history_read_iff :
    b.History (.read addr data :: log) b' ↔ data = b.peek addr ∧ (b.clearOutputAt addr).History log b' := by
  constructor
  · intro h
    cases h with
    | cons he h =>
      cases he
      rw [b.read_eq] at h ⊢
      exact ⟨rfl, h⟩
  · rintro ⟨rfl, h⟩
    have he := Happens.read b addr
    rw [b.read_eq] at he
    exact .cons he h

theorem history_append_iff : b.History (log ++ log') c ↔ ∃ b', b.History log b' ∧ b'.History log' c := by
  constructor
  · intro h
    exact h.split
  · rintro ⟨b', h, h'⟩
    exact h.append h'

end Bus

section Unique

variable {r : Registers} {b b₁ b₂ : Bus} {log log' : List BusEvent}

theorem Mode.Selects.unique {mode : Mode} {addr addr' : UInt16} (h : mode.Selects r log addr)
    (h' : mode.Selects r log' addr') (hb : b.History log b₁) (hb' : b.History log' b₂) :
    log = log' ∧ addr = addr' ∧ b₁ = b₂ := by
  cases h <;> cases h' <;>
    simp only [Bus.history_read_iff, Bus.history_nil_iff] at hb hb' <;>
    grind

theorem Place.Locates.unique {place : Place} {cell cell' : Cell} (h : place.Locates r log cell)
    (h' : place.Locates r log' cell') (hb : b.History log b₁) (hb' : b.History log' b₂) :
    log = log' ∧ cell = cell' ∧ b₁ = b₂ := by
  cases h with
  | register name =>
    cases h'
    rw [Bus.history_nil_iff] at hb hb'
    exact ⟨rfl, rfl, hb.symm.trans hb'⟩
  | memory h =>
    cases h' with
    | memory h' =>
      obtain ⟨rfl, rfl, rfl⟩ := h.unique h' hb hb'
      exact ⟨rfl, rfl, rfl⟩

theorem Exec.Cell.Holds.unique {cell : Cell} {data data' : UInt8} (h : cell.Holds r log data)
    (h' : cell.Holds r log' data') (hb : b.History log b₁) (hb' : b.History log' b₂) :
    log = log' ∧ data = data' ∧ b₁ = b₂ := by
  cases h <;> cases h' <;>
    simp only [Bus.history_read_iff, Bus.history_nil_iff] at hb hb' <;>
    grind

theorem Operand.Gives.unique {operand : Operand} {data data' : UInt8} (h : operand.Gives r log data)
    (h' : operand.Gives r log' data') (hb : b.History log b₁) (hb' : b.History log' b₂) :
    log = log' ∧ data = data' ∧ b₁ = b₂ := by
  cases h with
  | immediate data =>
    cases h'
    simp only [Bus.history_read_iff, Bus.history_nil_iff] at hb hb'
    grind
  | held hl hh =>
    cases h' with
    | held hl' hh' =>
      obtain ⟨b₃, hb₁, hb₂⟩ := Bus.history_append_iff.1 hb
      obtain ⟨b₄, hb₁', hb₂'⟩ := Bus.history_append_iff.1 hb'
      obtain ⟨rfl, rfl, rfl⟩ := hl.unique hl' hb₁ hb₁'
      obtain ⟨rfl, rfl, rfl⟩ := hh.unique hh' hb₂ hb₂'
      exact ⟨rfl, rfl, rfl⟩

end Unique

namespace Grid

theorem BinaryColumn.Operands.unique {column : BinaryColumn} {c : Core} (o o' : column.Operands c) : o = o' := by
  obtain ⟨source, sourceReads, gives, cell, cellReads, locates, target, targetReads, holds, bus, history⟩ := o
  obtain ⟨source', sourceReads', gives', cell', cellReads', locates', target', targetReads', holds', bus', history'⟩ := o'
  simp only [Bus.history_append_iff] at history history'
  obtain ⟨b₁, hs, b₂, hc, ht⟩ := history
  obtain ⟨b₁', hs', b₂', hc', ht'⟩ := history'
  obtain ⟨rfl, rfl, rfl⟩ := gives.unique gives' hs hs'
  obtain ⟨rfl, rfl, rfl⟩ := locates.unique locates' hc hc'
  obtain ⟨rfl, rfl, rfl⟩ := holds.unique holds' ht ht'
  rfl

theorem UnaryColumn.Operands.unique {column : UnaryColumn} {c : Core} (o o' : column.Operands c) : o = o' := by
  obtain ⟨cell, cellReads, locates, target, targetReads, holds, bus, history⟩ := o
  obtain ⟨cell', cellReads', locates', target', targetReads', holds', bus', history'⟩ := o'
  simp only [Bus.history_append_iff] at history history'
  obtain ⟨b₁, hc, ht⟩ := history
  obtain ⟨b₁', hc', ht'⟩ := history'
  obtain ⟨rfl, rfl, rfl⟩ := locates.unique locates' hc hc'
  obtain ⟨rfl, rfl, rfl⟩ := holds.unique holds' ht ht'
  rfl

end Grid

/-- The byte that a cell has after an instruction with the accesses `log`: what is in the register, or what was written
last. -/
inductive Exec.Cell.Receives (log : List BusEvent) (r : Registers) : Cell → UInt8 → Prop
  | register (name : ByteRegister) : Receives log r (.register name) (r.get name)
  | memory {addr : UInt16} {data : UInt8} (h : log.getLast? = some (.write addr data)) :
    Receives log r (.memory addr) data

open Grid

/-- Some opcode of the operation is carried out in some state with the flags `s`. The operands are `x.1`, which is
replaced by `d`, and `x.2`; the flags are `t` afterwards. -/
def BinaryOp.Performs (op : BinaryOp) (s : Status) (x : UInt8 × UInt8) (d : UInt8) (t : Status) : Prop :=
  ∃ (c : Core) (row : Fin 6) (i : Fin 12) (o : (binaryColumns.get i).Operands c),
    let code := opcode (binaryColumns.get i).code row
    binaryOps.get row = op ∧ c.registers.status = s ∧ (o.target, o.source) = x ∧
      o.cell.Receives (c.dispatchEvents code) (c.dispatch code).2.registers d ∧
      (c.dispatch code).2.registers.status = t

def UnaryOp.Performs (op : UnaryOp) (s : Status) (x d : UInt8) (t : Status) : Prop :=
  ∃ (c : Core) (row : Fin 6) (i : Fin 4) (o : (unaryColumns.get i).Operands c),
    let code := opcode (unaryColumns.get i).code row
    unaryOps.get row = op ∧ c.registers.status = s ∧ o.target = x ∧
      o.cell.Receives (c.dispatchEvents code) (c.dispatch code).2.registers d ∧
      (c.dispatch code).2.registers.status = t

theorem Registers.get_set (r : Registers) (name : ByteRegister) (data : UInt8) :
    (r.set name data).get name = data := by
  cases name <;> rfl

namespace Exec.Cell

variable (cell : Cell) (data : UInt8) (c : Core)

theorem status_put : (cell.put data c).registers.status = c.registers.status := by
  cases cell with
  | register name => cases name <;> rfl
  | memory addr => rfl

theorem receives_put (log : List BusEvent) {d : UInt8} :
    cell.Receives (log ++ cell.putEvents data) (cell.put data c).registers d ↔ d = data := by
  constructor
  · intro h
    cases h with
    | register name => exact c.registers.get_set name data
    | memory h =>
      rw [putEvents, List.getLast?_concat, Option.some.injEq, BusEvent.write.injEq] at h
      exact h.2.symm
  · rintro rfl
    cases cell with
    | register name =>
      have h : (register name).Receives (log ++ (register name).putEvents d) (c.registers.set name d) _ := .register name
      rw [c.registers.get_set] at h
      exact h
    | memory addr => exact .memory List.getLast?_concat

end Exec.Cell

namespace Grid

variable {c : Core} {row : Fin 6} {d : UInt8} {s t : Status}

theorem binary_receives {i : Fin 12} (o : (binaryColumns.get i).Operands c)
    (h : (binaryOps.get row).apply o.target o.source c.registers.status = (some d, t)) (d' : UInt8) :
    let code := opcode (binaryColumns.get i).code row
    (o.cell.Receives (c.dispatchEvents code) (c.dispatch code).2.registers d' ↔ d' = d) ∧
      (c.dispatch code).2.registers.status = t := by
  obtain ⟨o', run⟩ := binary_run (binaryColumns.get i) c
  obtain rfl := o.unique o'
  obtain ⟨hd, he⟩ := Core.dispatch_of_run (binary_decode row i).1 (run (binaryOps.get row))
  rw [BinaryOp.apply_eq, Prod.mk.injEq] at h
  dsimp only
  rw [hd, he]
  simp only [BinaryColumn.Operands.after, BinaryColumn.Operands.writes, h, Cell.finish, Cell.finishEvents]
  exact ⟨Cell.receives_put .., Cell.status_put ..⟩

theorem unary_receives {i : Fin 4} (o : (unaryColumns.get i).Operands c)
    (h : (unaryOps.get row).apply o.target c.registers.status = (d, t)) (d' : UInt8) :
    let code := opcode (unaryColumns.get i).code row
    (o.cell.Receives (c.dispatchEvents code) (c.dispatch code).2.registers d' ↔ d' = d) ∧
      (c.dispatch code).2.registers.status = t := by
  obtain ⟨o', run⟩ := unary_run (unaryColumns.get i) c
  obtain rfl := o.unique o'
  obtain ⟨hd, he⟩ := Core.dispatch_of_run (unary_decode row i).1 (run (unaryOps.get row))
  rw [UnaryOp.apply_eq, Prod.mk.injEq] at h
  dsimp only
  rw [hd, he]
  simp only [UnaryColumn.Operands.after, UnaryColumn.Operands.writes, h]
  exact ⟨Cell.receives_put .., Cell.status_put ..⟩

def facing (s : Status) (x y : UInt8) : Core where
  registers := { a := x, status := s }
  bus := { ram := Ram.zero.write 0 y, bootRom := .standard }

theorem exists_binary_operands (s : Status) (x y : UInt8) :
    ∃ o : (binaryColumns.get 4).Operands (facing s x y), o.target = x ∧ o.source = y := by
  have hy : y = (facing s x y).bus.peek 0 := (Ram.read_write_self ..).symm
  exact ⟨⟨y, [.read 0 y], .immediate y, .register .a, [], .register .a, x, [], .register .a, _,
    Bus.history_read_iff.2 ⟨hy, .nil _⟩⟩, rfl, rfl⟩

theorem exists_unary_operands (s : Status) (x : UInt8) :
    ∃ o : (unaryColumns.get 3).Operands (facing s x 0), o.target = x :=
  ⟨⟨.register .a, [], .register .a, x, [], .register .a, _, .nil _⟩, rfl⟩

end Grid

/-- Whatever opcode, state and place it is, an operation makes of two bytes what it should. -/
theorem BinaryOp.performs_iff {op : BinaryOp} {s t t' : Status} {x y d d' : UInt8}
    (h : op.apply x y s = (some d, t)) : op.Performs s (x, y) d' t' ↔ d' = d ∧ t' = t := by
  constructor
  · rintro ⟨c, row, i, o, rfl, rfl, hx, hd, rfl⟩
    cases hx
    obtain ⟨hreceives, hstatus⟩ := binary_receives o h d'
    exact ⟨hreceives.1 hd, hstatus⟩
  · rintro ⟨rfl, rfl⟩
    obtain ⟨row, rfl⟩ : ∃ row, binaryOps.get row = op := by
      cases op <;> decide
    obtain ⟨o, hx, hy⟩ := exists_binary_operands s x y
    have h' : (binaryOps.get row).apply o.target o.source s = (some d', t') := by
      rw [hx, hy]
      exact h
    obtain ⟨hreceives, hstatus⟩ := binary_receives o h' d'
    exact ⟨_, row, 4, o, rfl, rfl, by rw [hx, hy], hreceives.2 rfl, hstatus⟩

theorem UnaryOp.performs_iff {op : UnaryOp} {s t t' : Status} {x d d' : UInt8}
    (h : op.apply x s = (d, t)) : op.Performs s x d' t' ↔ d' = d ∧ t' = t := by
  constructor
  · rintro ⟨c, row, i, o, rfl, rfl, rfl, hd, rfl⟩
    obtain ⟨hreceives, hstatus⟩ := unary_receives o h d'
    exact ⟨hreceives.1 hd, hstatus⟩
  · rintro ⟨rfl, rfl⟩
    obtain ⟨row, rfl⟩ : ∃ row, unaryOps.get row = op := by
      cases op <;> decide
    obtain ⟨o, hx⟩ := exists_unary_operands s x
    have h' : (unaryOps.get row).apply o.target s = (d', t') := by
      rw [hx]
      exact h
    obtain ⟨hreceives, hstatus⟩ := unary_receives o h' d'
    exact ⟨_, row, 3, o, rfl, rfl, hx, hreceives.2 rfl, hstatus⟩

end SoundUnit
