import SoundUnit.Proofs.Processor.Dispatch

namespace SoundUnit

@[simp] theorem Registers.halted_set (r : Registers) (name : ByteRegister) (value : UInt8) :
    (r.set name value).halted = r.halted := by
  cases name <;> rfl

@[simp] theorem Registers.halted_setYA (r : Registers) (w : UInt16) : (r.setYA w).halted = r.halted := by
  simp only [setYA]

namespace Exec

variable {α β : Type}

/-- Whatever is read, the processor is halted afterwards if and only if it was before. -/
def KeepsHalted (e : Exec α) : Prop := ∀ r, (e r).Yields fun x ↦ x.2.halted = r.halted

namespace KeepsHalted

@[simp] theorem pure (a : α) : KeepsHalted (Pure.pure a) := fun _ ↦ rfl

@[simp] theorem bind {e : Exec α} {f : α → Exec β} (he : KeepsHalted e) (hf : ∀ a, KeepsHalted (f a)) :
    KeepsHalted (e >>= f) := by
  intro r
  refine (he r).bind fun x hx ↦ ?_
  rw [← hx]
  exact hf x.1 x.2

@[simp] theorem get : KeepsHalted (get : Exec Registers) := fun _ ↦ rfl

@[simp] theorem map {e : Exec α} (he : KeepsHalted e) (f : α → β) : KeepsHalted (f <$> e) := he.bind fun _ ↦ .pure _

@[simp] theorem discard {e : Exec α} (he : KeepsHalted e) : KeepsHalted (discard e) := he.map _

@[simp] theorem modify {f : Registers → Registers} (h : ∀ r, (f r).halted = r.halted) :
    KeepsHalted (modify f : Exec Unit) := h

@[simp] theorem readByte (addr : UInt16) : KeepsHalted (readByte addr) := fun _ _ ↦ rfl

@[simp] theorem writeByte (addr : UInt16) (data : UInt8) : KeepsHalted (writeByte addr data) := fun _ ↦ rfl

@[simp] theorem fetch : KeepsHalted fetch := fun _ _ ↦ rfl

@[simp] theorem pushByte (data : UInt8) : KeepsHalted (pushByte data) := fun _ ↦ rfl

@[simp] theorem popByte : KeepsHalted popByte := fun _ _ ↦ rfl

@[simp] theorem withStatus (f : Status → α × Status) : KeepsHalted (withStatus f) := fun _ ↦ rfl

@[simp] theorem setStatus (f : Status → Status) : KeepsHalted (setStatus f) := fun _ ↦ rfl

@[simp] theorem jumpTo (addr : UInt16) : KeepsHalted (jumpTo addr) := fun _ ↦ rfl

@[simp] theorem readWord (addr : UInt16) : KeepsHalted (readWord addr) :=
  (readByte addr).bind fun _ ↦ (readByte _).bind fun _ ↦ .pure _

@[simp] theorem fetchWord : KeepsHalted fetchWord := fetch.bind fun _ ↦ fetch.bind fun _ ↦ .pure _

@[simp] theorem readDirectWord (offset : UInt8) : KeepsHalted (readDirectWord offset) :=
  get.bind fun _ ↦ (readByte _).bind fun _ ↦ (readByte _).bind fun _ ↦ .pure _

@[simp] theorem writeDirectWord (offset : UInt8) (w : UInt16) : KeepsHalted (writeDirectWord offset w) :=
  get.bind fun _ ↦ (writeByte _ _).bind fun _ ↦ writeByte _ _

@[simp] theorem pushReturn : KeepsHalted pushReturn := get.bind fun _ ↦ (pushByte _).bind fun _ ↦ pushByte _

@[simp] theorem popWord : KeepsHalted popWord := popByte.bind fun _ ↦ popByte.bind fun _ ↦ .pure _

@[simp] theorem address (mode : Mode) : KeepsHalted (address mode) := by
  cases mode with
  | atX | atY => exact get.bind fun _ ↦ get.bind fun _ ↦ .pure _
  | direct => exact fetch.bind fun _ ↦ get.bind fun _ ↦ .pure _
  | directX | directY => exact fetch.bind fun _ ↦ get.bind fun _ ↦ get.bind fun _ ↦ .pure _
  | absolute => exact fetchWord
  | absoluteX | absoluteY => exact fetchWord.bind fun _ ↦ get.bind fun _ ↦ .pure _
  | pointerX => exact fetch.bind fun _ ↦ get.bind fun _ ↦ readDirectWord _
  | pointerY => exact fetch.bind fun _ ↦ (readDirectWord _).bind fun _ ↦ get.bind fun _ ↦ .pure _

@[simp] theorem locate (place : Place) : KeepsHalted (locate place) := by
  cases place with
  | register name => exact .pure _
  | memory mode => exact (address mode).bind fun _ ↦ .pure _

@[simp] theorem readCell (cell : Cell) : KeepsHalted (readCell cell) := by
  cases cell with
  | register name => exact get.bind fun _ ↦ .pure _
  | memory addr => exact readByte addr

@[simp] theorem writeCell (cell : Cell) (data : UInt8) : KeepsHalted (writeCell cell data) := by
  cases cell with
  | register name => exact .modify fun r ↦ r.halted_set name data
  | memory addr => exact writeByte addr data

@[simp] theorem readOperand (operand : Operand) : KeepsHalted (readOperand operand) := by
  cases operand with
  | immediate => exact fetch
  | held place => exact (locate place).bind fun cell ↦ readCell cell

@[simp] theorem bitAddress : KeepsHalted bitAddress := fetchWord.bind fun _ ↦ .pure _

@[simp] theorem branchIf (condition : Bool) : KeepsHalted (branchIf condition) := by
  refine fetch.bind fun offset ↦ ?_
  cases condition
  · exact .pure _
  · exact KeepsHalted.bind (.modify fun _ ↦ rfl) fun _ ↦ .pure _

end KeepsHalted

end Exec

namespace Instruction

open Exec

theorem execute_keepsHalted {i : Instruction} (h : i ≠ .halt) : KeepsHalted i.execute := by
  cases i with
  | halt => exact absurd rfl h
  | binary op target source =>
    refine (KeepsHalted.readOperand _).bind fun _ ↦ (KeepsHalted.locate _).bind fun _ ↦
      (KeepsHalted.readCell _).bind fun _ ↦ (KeepsHalted.withStatus _).bind fun result ↦ ?_
    cases result with
    | none => exact .pure _
    | some result => exact (KeepsHalted.writeCell _ _).bind fun _ ↦ .pure _
  | wide op =>
    refine KeepsHalted.fetch.bind fun _ ↦ (KeepsHalted.readDirectWord _).bind fun _ ↦ KeepsHalted.get.bind fun _ ↦
      (KeepsHalted.withStatus _).bind fun result ↦ ?_
    cases result with
    | none => exact .pure _
    | some result => simp
  | push value => cases value <;> simp [execute]
  | pop value => cases value <;> exact KeepsHalted.popByte.bind fun _ ↦ by simp
  | _ =>
    unfold execute
    repeat' with_reducible refine KeepsHalted.bind ?_ fun _ ↦ ?_
    all_goals simp

theorem halts_iff : ∀ i j : Fin 16,
    (OpcodeMatrix.rows.get i).get j = .halt ↔ (i = 14 ∨ i = 15) ∧ j = 15 := by
  decide +kernel

theorem ofOpcode_eq_halt_iff (opcode : UInt8) : ofOpcode opcode = .halt ↔ opcode = 0xEF ∨ opcode = 0xFF := by
  have ho := opcode.toNat_lt
  have h := halts_iff (Fin.ofNat 16 (opcode.toNat / 16)) (Fin.ofNat 16 opcode.toNat)
  have hv : ∀ n : Nat, (Fin.ofNat 16 n).val = n % 16 := fun _ ↦ rfl
  simp only [Fin.ext_iff, hv] at h
  rw [← UInt8.toNat_inj, ← UInt8.toNat_inj]
  change _ = _ ↔ opcode.toNat = 239 ∨ opcode.toNat = 255
  refine h.trans ?_
  change (opcode.toNat / 16 % 16 = 14 ∨ opcode.toNat / 16 % 16 = 15) ∧ opcode.toNat % 16 = 15 ↔ _
  omega

end Instruction

namespace Core

variable (c : Core)

theorem dispatch_of_halt {opcode : UInt8} (h : Instruction.ofOpcode opcode = .halt) :
    (c.dispatch opcode).2 = { c with registers := { c.registers with halted := true } } := by
  have hr : Instruction.halt.execute.Run c.registers c.bus [] 0 { c.registers with halted := true } c.bus := ⟨rfl, rfl⟩
  rw [(dispatch_of_run h hr).1]

theorem halted_dispatch {opcode : UInt8} (h : Instruction.ofOpcode opcode ≠ .halt) :
    (c.dispatch opcode).2.registers.halted = c.registers.halted := by
  have hk : Exec.KeepsHalted (Exec.dispatch opcode) := (Instruction.execute_keepsHalted h).bind fun _ ↦ .pure _
  exact (hk c.registers).run _ _ c.bus

/-- A step halts the processor exactly if it executes one of the two opcodes that are there for it; no step wakes the
processor up. -/
theorem halted_step_iff :
    c.step.2.registers.halted ↔
      c.registers.halted ∨ c.bus.peek c.registers.pc = 0xEF ∨ c.bus.peek c.registers.pc = 0xFF := by
  rw [← Instruction.ofOpcode_eq_halt_iff]
  by_cases hh : c.registers.halted
  · rw [step_of_halted hh]
    exact iff_of_true hh (.inl hh)
  · rw [step_of_running hh, execute_eq_dispatch]
    change (c.fetched.dispatch (c.bus.peek c.registers.pc)).2.registers.halted = true ↔ _
    by_cases hi : Instruction.ofOpcode (c.bus.peek c.registers.pc) = .halt
    · rw [dispatch_of_halt _ hi]
      exact iff_of_true rfl (.inr hi)
    · have hf : c.fetched.registers.halted = c.registers.halted := rfl
      rw [halted_dispatch _ hi, hf]
      simp [hh, hi]

end Core

end SoundUnit
