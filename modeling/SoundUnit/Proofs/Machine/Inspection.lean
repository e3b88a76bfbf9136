import SoundUnit.Machine.Inspection
import SoundUnit.Proofs.Processor.Dispatch

namespace SoundUnit

namespace Core

theorem step_eq_dispatch {c : Core} (h : ¬ c.registers.halted) :
    c.step =
      let (clocks, c') := c.fetched.dispatch (c.bus.peek c.registers.pc)
      (clocks, c'.elapse clocks) := by
  rw [step_of_running h, execute_eq_dispatch]

end Core

namespace Bus

variable (b : Bus) (addr x : UInt16) (data : UInt8)

theorem readByte_write :
    (b.write addr data).ram.read x = if x = addr ∧ Writable addr then data else b.ram.read x := by
  rw [ram_write]
  by_cases hw : Writable addr
  · by_cases hx : x = addr
    · rw [if_pos hw, if_pos ⟨hx, hw⟩, hx]
      exact b.ram.read_write_self addr data
    · rw [if_pos hw, if_neg fun h ↦ hx h.1]
      exact b.ram.read_write_of_ne hx data
  · rw [if_neg hw, if_neg fun h ↦ hw h.2]

theorem read_snd : (b.read addr).2 = if 0xFD ≤ addr ∧ addr ≤ 0xFF then b.clearOutputAt addr else b := by
  rw [read_eq]
  split
  next => rfl
  next h =>
    refine b.clearOutputAt_of_ne addr ?_
    rintro i rfl
    have hi : ∀ i : Fin 3, 0xFD ≤ outputAddress i ∧ outputAddress i ≤ 0xFF := by decide
    exact h (hi i)

/-- Reading gives what is seen and clears at most the output of the timer at the address; writing reaches the memory
cell at the address, unless a device is there, and shows nowhere but where it can; and the opcode that is seen at the
program counter is the one that the next step carries out. -/
theorem no_hidden_effects :
    (b.read addr).1 = b.peek addr ∧
      (b.read addr).2 = (if 0xFD ≤ addr ∧ addr ≤ 0xFF then b.clearOutputAt addr else b) ∧
      (∀ x, (b.write addr data).ram.read x = if x = addr ∧ Writable addr then data else b.ram.read x) ∧
      (∀ x, ¬ ShowsAt addr x → (b.write addr data).peek x = b.peek x) ∧
      ∀ m : Machine, ¬ m.registers.halted →
        m.core.step =
          let (clocks, c) := m.core.fetched.dispatch m.instruction.1
          (clocks, c.elapse clocks) := by
  refine ⟨?_, b.read_snd addr, fun x ↦ b.readByte_write addr x data, fun x ↦ b.peek_write data, ?_⟩
  · rw [b.read_eq]
  · intro m h
    exact Core.step_eq_dispatch h

theorem no_hidden_effects_at_start :
    let m := Machine.initial
    (m.core.bus.write 0xF1 0).peek 0xFFBF = m.core.bus.peek 0xFFBF ∧ m.instruction.1 = 0xCD ∧
      m.core.step =
        let (clocks, c) := m.core.fetched.dispatch 0xCD
        (clocks, c.elapse clocks) := by
  obtain ⟨-, -, -, hw, hs⟩ := no_hidden_effects Machine.initial.core.bus 0xF1 0
  have hi : Machine.initial.instruction.1 = 0xCD := by decide
  refine ⟨hw 0xFFBF (by decide), hi, ?_⟩
  rw [← hi]
  exact hs Machine.initial (by decide)

end Bus

end SoundUnit
