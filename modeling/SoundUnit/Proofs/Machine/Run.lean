import SoundUnit.Machine.Basic
import SoundUnit.Proofs.Machine.Step

namespace SoundUnit

namespace Machine

/-- The number of samples that the asked-for time has reached and that are not in the output queue yet. -/
def due (m : Machine) : Nat := m.target / Dsp.sampleClocks - m.released

def waiting (m : Machine) : Array Frame := m.core.bus.dsp.frames

def withWaiting (m : Machine) (frames : Array Frame) : Machine :=
  m.withBus fun b ↦ { b with dsp := { b.dsp with frames } }

/-- The same machine with frames in front of those that wait. -/
def enqueue (m : Machine) (q : Array Frame) : Machine := { m with core := m.core.enqueue q }

theorem enqueue_eq (m : Machine) (q : Array Frame) : m.enqueue q = m.withWaiting (q ++ m.waiting) := rfl

def emit (m : Machine) (q : Array Frame) : Machine :=
  { m with released := m.released + q.size, output := m.output ++ q }

theorem emit_emit (m : Machine) (q q' : Array Frame) : (m.emit q).emit q' = m.emit (q ++ q') := by
  simp only [emit, Array.size_append, Array.append_assoc, Nat.add_assoc]

def dueFrames (m : Machine) : Array Frame := m.waiting.extract 0 m.due

def withoutDue (m : Machine) : Machine := m.withWaiting (m.waiting.extract m.due m.waiting.size)

theorem release_eq (m : Machine) : m.release = m.withoutDue.emit m.dueFrames := rfl

theorem enqueue_withoutDue (m : Machine) : m.withoutDue.enqueue m.dueFrames = m :=
  congrArg (fun dsp ↦ m.withBus fun b ↦ { b with dsp }) (m.core.bus.dsp.enqueue_take m.due)

theorem due_withoutDue (m : Machine) : m.withoutDue.due = m.due := rfl

theorem size_dueFrames (m : Machine) : m.dueFrames.size = min m.due m.waiting.size := by
  rw [dueFrames, Array.size_extract, Nat.sub_zero]

theorem size_output_release (m : Machine) :
    m.release.output.size + m.released = m.output.size + m.release.released := by
  have hs : (m.output ++ m.dueFrames).size = m.output.size + m.dueFrames.size := Array.size_append
  change (m.output ++ m.dueFrames).size + m.released = m.output.size + (m.released + m.dueFrames.size)
  omega

/-- Frames that are due at the front of the queue might as well be in the output already. -/
theorem release_enqueue {m : Machine} {q : Array Frame} (h : q.size ≤ m.due) :
    (m.enqueue q).release = (m.emit q).release := by
  have hdue : (m.emit q).due = m.due - q.size := (Nat.sub_sub ..).symm
  have hw : (m.emit q).waiting = m.waiting := rfl
  have hout : (q ++ m.waiting).extract 0 m.due = q ++ (m.emit q).dueFrames := by
    rw [Array.extract_append, Nat.zero_sub, Array.extract_eq_self_of_le h, dueFrames, hdue, hw]
  have hrest : (q ++ m.waiting).extract m.due (q ++ m.waiting).size =
      m.waiting.extract (m.due - q.size) m.waiting.size := by
    rw [Array.extract_append, Array.extract_eq_empty_of_le (Nat.le_trans (Nat.min_le_right ..) h),
      Array.empty_append, Array.size_append, Nat.add_sub_cancel_left]
  calc (m.enqueue q).release
      = (m.withWaiting ((q ++ m.waiting).extract m.due (q ++ m.waiting).size)).emit
          ((q ++ m.waiting).extract 0 m.due) := rfl
    _ = ((m.withWaiting (m.waiting.extract (m.due - q.size) m.waiting.size)).emit q).emit
          (m.emit q).dueFrames := by rw [hout, hrest, emit_emit]
    _ = (m.emit q).release := by rw [release_eq, withoutDue, hdue, hw]; rfl

def advance (m : Machine) (clocks : Nat) : Machine :=
  { m with
    core := (m.core.runTo (m.target + clocks) m.executed).2
    executed := (m.core.runTo (m.target + clocks) m.executed).1
    target := m.target + clocks }

theorem run_eq (m : Machine) (clocks : Nat) : m.run clocks = (m.advance clocks).release := rfl

def advanceStep (m : Machine) : Machine :=
  { m with
    core := m.core.step.2
    executed := m.executed + m.core.step.1
    target := m.executed + m.core.step.1 }

theorem step_eq (m : Machine) : m.step = (m.core.step.1, m.advanceStep.release) := rfl

theorem advance_emit (m : Machine) (q : Array Frame) (clocks : Nat) :
    (m.emit q).advance clocks = (m.advance clocks).emit q := rfl

theorem advance_enqueue (m : Machine) (q : Array Frame) (clocks : Nat) :
    (m.enqueue q).advance clocks = (m.advance clocks).enqueue q := by
  have h := Core.runTo_enqueue (m.target + clocks) m.executed m.core q
  simp only [advance, enqueue, h]

theorem advance_advance (m : Machine) (a b : Nat) : (m.advance a).advance b = m.advance (a + b) := by
  have h := Core.runTo_runTo (Nat.le_add_right (m.target + a) b) m.executed m.core
  rw [Nat.add_assoc] at h
  simp only [advance, Nat.add_assoc, h]

theorem due_le_due_advance (m : Machine) (clocks : Nat) : m.due ≤ (m.advance clocks).due :=
  Nat.sub_le_sub_right (Nat.div_le_div_right (Nat.le_add_right ..)) _

theorem run_run (m : Machine) (a b : Nat) : (m.run a).run b = m.run (a + b) := by
  -- What the first run releases is still due in the second one, so it may as well stay in the queue until then.
  generalize hn : m.advance a = n
  have hd : n.dueFrames.size ≤ (n.withoutDue.advance b).due := by
    have hle := n.withoutDue.due_le_due_advance b
    rw [size_dueFrames]
    rw [due_withoutDue] at hle
    omega
  calc (m.run a).run b
      = ((n.withoutDue.emit n.dueFrames).advance b).release := by rw [run_eq, run_eq, hn, release_eq n]
    _ = ((n.withoutDue.advance b).enqueue n.dueFrames).release := by rw [advance_emit, release_enqueue hd]
    _ = (n.advance b).release := by rw [← advance_enqueue, enqueue_withoutDue]
    _ = m.run (a + b) := by rw [← hn, advance_advance, run_eq]

/-- Nothing is left to do: no clocks that were asked for have to be executed and no samples have to be moved. -/
def Settled (m : Machine) : Prop := m.target ≤ m.executed ∧ (m.due = 0 ∨ m.waiting = #[])

theorem release_of_settled {m : Machine} (h : m.due = 0 ∨ m.waiting = #[]) : m.release = m := by
  have hd : m.dueFrames = #[] := by
    rw [← Array.size_eq_zero_iff, size_dueFrames]
    rcases h with h | h <;> simp [h]
  have he : m.withoutDue = m := by
    have h' := m.enqueue_withoutDue
    rw [hd, enqueue_eq, Array.empty_append] at h'
    exact h'
  rw [release_eq, hd, he]
  simp only [emit, Array.size_empty, Nat.add_zero, Array.append_empty]

theorem Settled.run_zero {m : Machine} (h : m.Settled) : m.run 0 = m := by
  have ha : m.advance 0 = m := by simp only [advance, Nat.add_zero, Core.runTo_of_le h.1]
  rw [run_eq, ha, release_of_settled h.2]

theorem settled_release {m : Machine} (h : m.target ≤ m.executed) : m.release.Settled := by
  refine ⟨h, ?_⟩
  have hs := m.size_dueFrames
  have hd : m.release.due = m.due - m.dueFrames.size := (Nat.sub_sub ..).symm
  have hw : m.release.waiting = m.waiting.extract m.due m.waiting.size := rfl
  rcases Nat.le_total m.due m.waiting.size with hle | hle
  · left
    omega
  · right
    rw [hw, Array.extract_eq_empty_of_le (Nat.le_trans (Nat.min_le_right ..) hle)]

theorem settled_run (m : Machine) (clocks : Nat) : (m.run clocks).Settled :=
  settled_release (Core.target_le_runTo ..)

theorem settled_step (m : Machine) : m.step.2.Settled := settled_release (Nat.le_refl _)

theorem Settled.foldl_run {m : Machine} (h : m.Settled) (clocks : List Nat) :
    clocks.foldl run m = m.run clocks.sum := by
  induction clocks generalizing m with
  | nil => exact h.run_zero.symm
  | cons a clocks ih => rw [List.foldl_cons, ih (settled_run m a), run_run, List.sum_cons]

end Machine

end SoundUnit
