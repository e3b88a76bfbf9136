import SoundUnit.Proofs.Bus.AddressMap
import SoundUnit.Proofs.Bus.PortEvents
import SoundUnit.Proofs.Machine.Step

namespace SoundUnit

open BusEvent

/-- The registers after some bytes at the program counter have been fetched. -/
def Registers.advance (r : Registers) (length : UInt16) : Registers := { r with pc := r.pc + length }

@[simp] theorem Registers.advance_zero (r : Registers) : r.advance 0 = r := by
  simp [advance]

@[simp] theorem Registers.advance_advance (r : Registers) (m n : UInt16) :
    (r.advance m).advance n = r.advance (m + n) := by
  simp [advance, UInt16.add_assoc]

theorem Bus.perform_bind {α β : Type} (b : Bus) (p : Access α) (f : α → Access β) :
    b.perform (p.bind f) = (b.perform p).2.perform (f (b.perform p).1) :=
  Access.run_bind ..

theorem Bus.accesses_bind {α β : Type} (b : Bus) (p : Access α) (f : α → Access β) :
    b.accesses (p.bind f) = b.accesses p ++ (b.perform p).2.accesses (f (b.perform p).1) := by
  induction p generalizing b with
  | done value => rfl
  | read addr next ih => exact congrArg (List.cons _) (ih _ _)
  | write addr data next ih => exact congrArg (List.cons _) (ih _)

namespace Exec

/-- With the registers `r` and the bus `b` in front of it, a piece of an instruction makes the accesses `log`, gives `x`
and leaves `r'` and `b'`. -/
structure Run {α : Type} (e : Exec α) (r : Registers) (b : Bus) (log : List BusEvent) (x : α) (r' : Registers)
    (b' : Bus) : Prop where
  perform_eq : b.perform (e r) = ((x, r'), b')
  accesses_eq : b.accesses (e r) = log

namespace Run

variable {α β : Type} {e : Exec α} {r r' r'' : Registers} {b b' b'' : Bus} {log log' : List BusEvent} {x : α} {y : β}

theorem history (h : e.Run r b log x r' b') : b.History log b' := by
  have hh := b.history_perform (e r)
  rw [h.perform_eq, h.accesses_eq] at hh
  exact hh

theorem pure (x : α) (r : Registers) (b : Bus) : (Pure.pure x : Exec α).Run r b [] x r b := ⟨rfl, rfl⟩

theorem bind {f : α → Exec β} (h : e.Run r b log x r' b') (h' : (f x).Run r' b' log' y r'' b'') :
    (e >>= f).Run r b (log ++ log') y r'' b'' where
  perform_eq := by
    refine (b.perform_bind (e r) _).trans ?_
    rw [h.perform_eq]
    exact h'.perform_eq
  accesses_eq := by
    refine (b.accesses_bind (e r) _).trans ?_
    rw [h.perform_eq, h.accesses_eq]
    exact congrArg (log ++ ·) h'.accesses_eq

theorem map {f : α → Exec β} (h : e.Run r b log x r' b') (h' : (f x).Run r' b' [] y r'' b'') :
    (e >>= f).Run r b log y r'' b'' := by
  have hb := h.bind h'
  rw [List.append_nil] at hb
  exact hb

theorem get (r : Registers) (b : Bus) : (get : Exec Registers).Run r b [] r r b := ⟨rfl, rfl⟩

theorem modify (f : Registers → Registers) (r : Registers) (b : Bus) :
    (modify f : Exec Unit).Run r b [] () (f r) b := ⟨rfl, rfl⟩

theorem setStatus (f : Status → Status) (r : Registers) (b : Bus) :
    (setStatus f).Run r b [] () { r with status := f r.status } b := ⟨rfl, rfl⟩

theorem withStatus (f : Status → α × Status) (r : Registers) (b : Bus) :
    (withStatus f).Run r b [] (f r.status).1 { r with status := (f r.status).2 } b := ⟨rfl, rfl⟩

theorem writeByte (addr : UInt16) (data : UInt8) (r : Registers) (b : Bus) :
    (writeByte addr data).Run r b [.write addr data] () r (b.write addr data) := ⟨rfl, rfl⟩

theorem readByte (addr : UInt16) (r : Registers) (b : Bus) :
    (readByte addr).Run r b [.read addr (b.peek addr)] (b.peek addr) r (b.clearOutputAt addr) where
  perform_eq := by
    change ((((b.read addr).1, r), (b.read addr).2) : (UInt8 × Registers) × Bus) = _
    rw [b.read_eq]
  accesses_eq := by
    change [BusEvent.read addr (b.read addr).1] = _
    rw [b.read_eq]

theorem fetch (r : Registers) (b : Bus) :
    fetch.Run r b [.read r.pc (b.peek r.pc)] (b.peek r.pc) (r.advance 1) (b.clearOutputAt r.pc) where
  perform_eq := by
    change ((((b.read r.pc).1, r.advance 1), (b.read r.pc).2) : (UInt8 × Registers) × Bus) = _
    rw [b.read_eq]
  accesses_eq := by
    change [BusEvent.read r.pc (b.read r.pc).1] = _
    rw [b.read_eq]

end Run

def dispatch (opcode : UInt8) : Exec Nat := do
  let extra ← (Instruction.ofOpcode opcode).execute
  return Instruction.baseClocks opcode + extra

end Exec

namespace Core

def fetched (c : Core) : Core where
  registers := c.registers.advance 1
  bus := c.bus.clearOutputAt c.registers.pc

/-- Carries out the instruction of an opcode that has been fetched. The result is the number of clocks. -/
def dispatch (c : Core) (opcode : UInt8) : Nat × Core :=
  let ((clocks, registers), bus) := c.bus.perform (Exec.dispatch opcode c.registers)
  (clocks, { registers, bus })

def dispatchEvents (c : Core) (opcode : UInt8) : List BusEvent := c.bus.accesses (Exec.dispatch opcode c.registers)

/-- To execute an instruction is to fetch an opcode and to dispatch on it. -/
theorem execute_eq_dispatch (c : Core) : c.execute = c.fetched.dispatch (c.bus.peek c.registers.pc) := by
  have h := Exec.Run.fetch c.registers c.bus
  refine c.execute_eq ?_
  refine (c.bus.perform_bind (Exec.fetch c.registers) _).trans ?_
  rw [h.perform_eq]
  rfl

variable {c : Core} {opcode : UInt8} {i : Instruction} {log : List BusEvent} {extra : Nat} {r : Registers} {b : Bus}

theorem dispatch_of_run (hi : Instruction.ofOpcode opcode = i)
    (h : i.execute.Run c.registers c.bus log extra r b) :
    c.dispatch opcode = (Instruction.baseClocks opcode + extra, { registers := r, bus := b }) ∧
      c.dispatchEvents opcode = log := by
  have hd : (Exec.dispatch opcode).Run c.registers c.bus log (Instruction.baseClocks opcode + extra) r b := by
    unfold Exec.dispatch
    rw [hi]
    exact h.map (.pure _ _ _)
  constructor
  · unfold dispatch
    rw [hd.perform_eq]
  · exact hd.accesses_eq

end Core

end SoundUnit
