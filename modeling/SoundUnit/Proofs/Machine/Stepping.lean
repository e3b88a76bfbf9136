import SoundUnit.Proofs.Machine.Run

namespace SoundUnit

namespace Core

def steps : Nat → Nat → Core → Nat × Core
  | 0, executed, c => (executed, c)
  | n + 1, executed, c => steps n (executed + c.step.1) c.step.2

/-- The number of steps in a run. -/
def runLength (target executed : Nat) (c : Core) : Nat :=
  if executed < target then
    have := c.two_le_step
    runLength target (executed + c.step.1) c.step.2 + 1
  else 0
termination_by target - executed

theorem runLength_of_lt {target executed : Nat} (h : executed < target) (c : Core) :
    c.runLength target executed = c.step.2.runLength target (executed + c.step.1) + 1 := by
  rw [runLength, if_pos h]

theorem runLength_of_le {target executed : Nat} (h : target ≤ executed) (c : Core) :
    c.runLength target executed = 0 := by
  rw [runLength, if_neg (Nat.not_lt.2 h)]

theorem executed_steps_ge (n executed : Nat) (c : Core) : executed + 2 * n ≤ (c.steps n executed).1 := by
  induction n generalizing executed c with
  | zero => exact Nat.le_refl _
  | succ n ih =>
    have h2 := c.two_le_step
    have hi := ih (executed + c.step.1) c.step.2
    rw [steps]
    omega

/-- A run is its steps: as long as it has steps left it has not reached the target, and with the last one it has. -/
theorem runTo_eq_steps (target executed : Nat) (c : Core) :
    c.runTo target executed = c.steps (c.runLength target executed) executed ∧
      ∀ k < c.runLength target executed, (c.steps k executed).1 < target := by
  induction executed, c using run_induction target with
  | reached executed c hle =>
    rw [runTo_of_le hle, runLength_of_le hle]
    refine ⟨rfl, fun k hk ↦ ?_⟩
    exact absurd hk (Nat.not_lt_zero k)
  | step executed c hlt ih =>
    obtain ⟨hr, hk⟩ := ih
    rw [runTo_of_lt hlt, runLength_of_lt hlt]
    refine ⟨hr, fun k hlt' ↦ ?_⟩
    cases k with
    | zero => exact hlt
    | succ k => exact hk k (Nat.lt_of_succ_lt_succ hlt')

theorem runLength_le (target executed : Nat) (c : Core) :
    c.runLength target executed ≤ (target - executed + 1) / 2 := by
  rcases Nat.eq_zero_or_pos (c.runLength target executed) with h | h
  · omega
  · have hlt := (c.runTo_eq_steps target executed).2 (c.runLength target executed - 1) (by omega)
    have hge := c.executed_steps_ge (c.runLength target executed - 1) executed
    omega

theorem runLength_steps (n executed : Nat) (c : Core) : c.runLength (c.steps n executed).1 executed = n := by
  induction n generalizing executed c with
  | zero => exact runLength_of_le (Nat.le_refl _) c
  | succ n ih =>
    have h2 := c.two_le_step
    have hge := c.step.2.executed_steps_ge n (executed + c.step.1)
    rw [steps, runLength_of_lt (by omega), ih]

theorem steps_enqueue (n executed : Nat) (c : Core) (q : Array Frame) :
    (c.enqueue q).steps n executed = ((c.steps n executed).1, (c.steps n executed).2.enqueue q) := by
  induction n generalizing executed c with
  | zero => rfl
  | succ n ih => rw [steps, step_enqueue, ih, steps]

end Core

namespace Machine

def steps : Nat → Machine → Machine
  | 0, m => m
  | n + 1, m => steps n m.step.2

variable {m : Machine}

theorem executed_steps (n : Nat) (m : Machine) : (m.steps n).executed = (m.core.steps n m.executed).1 := by
  induction n generalizing m with
  | zero => rfl
  | succ n ih =>
    have hc : m.step.2.core.enqueue m.advanceStep.dueFrames = m.core.step.2 :=
      congrArg core m.advanceStep.enqueue_withoutDue
    have hq := m.step.2.core.steps_enqueue n m.step.2.executed m.advanceStep.dueFrames
    rw [hc] at hq
    rw [steps, ih, Core.steps]
    exact (congrArg Prod.fst hq).symm

theorem executed_steps_le (n : Nat) (m : Machine) : m.executed + 2 * n ≤ (m.steps n).executed := by
  rw [executed_steps]
  exact m.core.executed_steps_ge n m.executed

/-- A step is a run to the end of the step. -/
theorem step_eq_run (h : m.target ≤ m.executed) : m.step.2 = m.run (m.executed + m.core.step.1 - m.target) := by
  have ht : m.target + (m.executed + m.core.step.1 - m.target) = m.executed + m.core.step.1 := by omega
  have hr : m.core.runTo (m.executed + m.core.step.1) m.executed = (m.executed + m.core.step.1, m.core.step.2) := by
    have h2 := m.core.two_le_step
    rw [Core.runTo_of_lt (by omega), Core.runTo_of_le (Nat.le_refl _)]
  have ha : m.advance (m.executed + m.core.step.1 - m.target) = m.advanceStep := by
    simp only [advance, advanceStep, ht, hr]
  rw [run_eq, ha, step_eq]

theorem steps_succ_eq_run (h : m.target ≤ m.executed) (n : Nat) :
    m.steps (n + 1) = m.run ((m.steps (n + 1)).executed - m.target) := by
  induction n generalizing m with
  | zero => exact step_eq_run h
  | succ n ih =>
    have hs : m.steps (n + 2) = m.step.2.steps (n + 1) := rfl
    have hge := m.step.2.executed_steps_le (n + 1)
    have he : m.step.2.executed = m.executed + m.core.step.1 := rfl
    have ht : m.step.2.target = m.executed + m.core.step.1 := rfl
    calc m.steps (n + 2)
        = m.step.2.run ((m.steps (n + 2)).executed - m.step.2.target) := ih (Nat.le_refl m.step.2.target)
      _ = (m.run (m.executed + m.core.step.1 - m.target)).run ((m.steps (n + 2)).executed - m.step.2.target) := by
        rw [← step_eq_run h]
      _ = m.run ((m.steps (n + 2)).executed - m.target) := by
        rw [run_run, hs]
        congr 1
        omega

end Machine

end SoundUnit
