import SoundUnit.Bus.Basic
import SoundUnit.Processor.Execution

namespace SoundUnit

def Bus.perform {α : Type} (b : Bus) (p : Access α) : α × Bus :=
  p.run (fun addr b ↦ b.read addr) (fun addr data b ↦ b.write addr data) b

structure Core where
  registers : Registers
  bus : Bus

namespace Core

def resetVector : UInt16 := 0xFFFE

def start (bus : Bus) : Core where
  registers := { pc := word (bus.peek (resetVector + 1)) (bus.peek resetVector) }
  bus := bus

def haltedClocks : Nat := 2

/-- No step takes more clocks. -/
def maxStepClocks : Nat := 12

/-- Executes an instruction. The devices do not notice the time that it takes. -/
def execute (c : Core) : Nat × Core :=
  let ((clocks, registers), bus) := c.bus.perform (Exec.instruction c.registers)
  (clocks, { registers, bus })

def elapse (c : Core) (clocks : Nat) : Core := { c with bus := c.bus.clock clocks }

/-- Executes an instruction, unless the processor is halted, and lets the time that it takes pass in the devices. The
result is the number of clocks. -/
def step (c : Core) : Nat × Core :=
  if c.registers.halted then (haltedClocks, c.elapse haltedClocks)
  else
    let (clocks, c) := c.execute
    (clocks, c.elapse clocks)

theorem two_le_execute (c : Core) : 2 ≤ c.execute.1 := by
  have key (p : Access (Nat × Registers)) (n : Nat) (b : Bus) (h : 2 ≤ n) :
      2 ≤ (b.perform (p.bind fun x ↦ .done (n + x.1, x.2))).1.1 := by
    simp only [Bus.perform, Access.run_bind, Access.run]
    omega
  exact key _ _ _ (Instruction.two_le_baseClocks _)

theorem two_le_step (c : Core) : 2 ≤ c.step.1 := by
  unfold step
  split
  · exact Nat.le_refl 2
  · exact c.two_le_execute

/-- Steps until as many clocks have been executed as were asked for. -/
def runTo (target executed : Nat) (c : Core) : Nat × Core :=
  if executed < target then
    match h : c.step with
    | (clocks, next) =>
      have : 2 ≤ clocks := by simpa only [h] using c.two_le_step
      runTo target (executed + clocks) next
  else (executed, c)
termination_by target - executed

theorem runTo_of_le {target executed : Nat} (h : target ≤ executed) (c : Core) :
    runTo target executed c = (executed, c) := by
  rw [runTo, if_neg (Nat.not_lt.2 h)]

theorem runTo_of_lt {target executed : Nat} (h : executed < target) (c : Core) :
    runTo target executed c = runTo target (executed + c.step.1) c.step.2 := by
  rw [runTo, if_pos h]

end Core

end SoundUnit
