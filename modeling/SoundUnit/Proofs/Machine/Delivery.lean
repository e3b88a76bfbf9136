import SoundUnit.Proofs.Machine.Host
import SoundUnit.Proofs.Machine.Reading

namespace SoundUnit

namespace Dsp

/-- The frames that successive ticks make. -/
def tickFrames : Nat → Dsp → Ram → List Frame
  | 0, _, _ => []
  | n + 1, d, ram => (d.generate ram).1 :: tickFrames n (d.tick ram).1 (d.tick ram).2

theorem frames_ticks (n : Nat) (d : Dsp) (ram : Ram) :
    (ticks n d ram).1.frames.toList = d.frames.toList ++ tickFrames n d ram := by
  induction n generalizing d ram with
  | zero => exact (List.append_nil _).symm
  | succ n ih => rw [ticks, ih, frames_tick, Array.toList_push, tickFrames, List.append_assoc, List.singleton_append]

def clockFrames (d : Dsp) (clocks : Nat) (ram : Ram) : List Frame :=
  let total := d.elapsed + clocks
  tickFrames (total / sampleClocks) { d with elapsed := total % sampleClocks } ram

theorem frames_clock (d : Dsp) (clocks : Nat) (ram : Ram) :
    (d.clock clocks ram).1.frames.toList = d.frames.toList ++ d.clockFrames clocks ram :=
  frames_ticks ..

end Dsp

namespace Core

def elapseFrames (c : Core) (clocks : Nat) : List Frame := c.bus.dsp.clockFrames clocks c.bus.ram

def stepFrames (c : Core) : List Frame :=
  if c.registers.halted then c.elapseFrames haltedClocks else c.execute.2.elapseFrames c.execute.1

def runFrames (target executed : Nat) (c : Core) : List Frame :=
  if executed < target then
    have := c.two_le_step
    c.stepFrames ++ runFrames target (executed + c.step.1) c.step.2
  else []
termination_by target - executed

theorem runFrames_of_lt {target executed : Nat} (h : executed < target) (c : Core) :
    c.runFrames target executed = c.stepFrames ++ c.step.2.runFrames target (executed + c.step.1) := by
  rw [runFrames, if_pos h]

theorem frames_elapse (c : Core) (clocks : Nat) :
    (c.elapse clocks).bus.dsp.frames.toList = c.bus.dsp.frames.toList ++ c.elapseFrames clocks :=
  c.bus.dsp.frames_clock clocks c.bus.ram

theorem frames_execute (c : Core) : c.execute.2.bus.dsp.frames = c.bus.dsp.frames := by
  have h := (c.bus.perform_keeps_clock (Exec.instruction c.registers)).2
  generalize hr : c.bus.perform (Exec.instruction c.registers) = r at h
  rw [execute_eq c hr]
  exact h

theorem frames_step (c : Core) : c.step.2.bus.dsp.frames.toList = c.bus.dsp.frames.toList ++ c.stepFrames := by
  unfold stepFrames
  by_cases h : c.registers.halted
  · rw [step_of_halted h, if_pos h]
    exact c.frames_elapse haltedClocks
  · have he := c.execute.2.frames_elapse c.execute.1
    rw [frames_execute] at he
    rw [step_of_running h, if_neg h]
    exact he

theorem frames_runTo (target executed : Nat) (c : Core) :
    (c.runTo target executed).2.bus.dsp.frames.toList =
      c.bus.dsp.frames.toList ++ c.runFrames target executed := by
  induction executed, c using run_induction target with
  | reached executed c hle => rw [runTo_of_le hle, runFrames, if_neg (Nat.not_lt.2 hle), List.append_nil]
  | step executed c hlt ih => rw [runTo_of_lt hlt, ih, frames_step, List.append_assoc, ← runFrames_of_lt hlt]

end Core

namespace Machine

/-- The frames that have been made and not been read, oldest first. -/
def stored (m : Machine) : List Frame := m.output.toList ++ m.waiting.toList

theorem stored_release (m : Machine) : m.release.stored = m.stored := by
  have hw : m.dueFrames ++ m.withoutDue.waiting = m.waiting := congrArg waiting m.enqueue_withoutDue
  have ho : m.release.output = m.output ++ m.dueFrames := rfl
  have hr : m.release.waiting = m.withoutDue.waiting := rfl
  unfold stored
  rw [ho, hr, ← hw, Array.toList_append, Array.toList_append, List.append_assoc]

/-- What a host asks for. A reading stops after `count` frames at the latest. -/
inductive Request where
  | run (clocks : Nat)
  | step
  | read (limit count : Nat)

def answer (m : Machine) : Request → List Frame × Machine
  | .run clocks => ([], m.run clocks)
  | .step => ([], m.step.2)
  | .read limit count =>
    let (frames, s) := Samples.take count (m.samples limit) #[]
    (frames.toList, s.close)

/-- The frames that the sound generator makes for a request. -/
def made (m : Machine) : Request → List Frame
  | .run clocks => m.core.runFrames (m.target + clocks) m.executed
  | .step => m.core.stepFrames
  | .read .. => []

def answers (m : Machine) : List Request → List Frame × Machine
  | [] => ([], m)
  | r :: requests =>
    let (frames, m) := m.answer r
    let (later, m) := m.answers requests
    (frames ++ later, m)

def allMade (m : Machine) : List Request → List Frame
  | [] => []
  | r :: requests => m.made r ++ (m.answer r).2.allMade requests

theorem answers_cons (m : Machine) (r : Request) (requests : List Request) :
    m.answers (r :: requests) =
      ((m.answer r).1 ++ ((m.answer r).2.answers requests).1, ((m.answer r).2.answers requests).2) := rfl

theorem answer_read (m : Machine) (limit count : Nat) :
    m.answer (.read limit count) =
      ((m.output.extract 0 (min count (min limit m.available))).toList,
        { m with output := m.output.extract (min count (min limit m.available)) m.output.size }) := by
  have ht := (m.samples limit).take_eq count #[]
  rw [Array.empty_append, count_samples] at ht
  unfold answer
  dsimp only
  rw [ht, Samples.close_past, Samples.front]
  simp only [samples, Nat.zero_add]

theorem answer_stored (m : Machine) (r : Request) : (m.answer r).1 ++ (m.answer r).2.stored = m.stored ++ m.made r := by
  cases r with
  | run clocks =>
    have hw : (m.advance clocks).waiting.toList = m.waiting.toList ++ m.made (.run clocks) :=
      Core.frames_runTo ..
    have ho : (m.advance clocks).output = m.output := rfl
    change (m.run clocks).stored = _
    rw [run_eq, stored_release]
    unfold stored
    rw [ho, hw, List.append_assoc]
  | step =>
    have hw : m.advanceStep.waiting.toList = m.waiting.toList ++ m.made .step := Core.frames_step m.core
    have ho : m.advanceStep.output = m.output := rfl
    change m.step.2.stored = _
    rw [step_eq, stored_release]
    unfold stored
    rw [ho, hw, List.append_assoc]
  | read limit count =>
    have hle : min count (min limit m.available) ≤ m.output.size :=
      Nat.le_trans (Nat.min_le_right ..) (Nat.min_le_right ..)
    rw [answer_read]
    generalize min count (min limit m.available) = n at hle
    have he : m.output.extract 0 n ++ m.output.extract n m.output.size = m.output := by
      rw [Array.extract_append_extract, Nat.min_eq_left (Nat.zero_le n), Nat.max_eq_right hle, Array.extract_size]
    have hl : (m.output.extract 0 n).toList ++ (m.output.extract n m.output.size).toList = m.output.toList := by
      rw [← Array.toList_append, he]
    change (m.output.extract 0 n).toList ++ ((m.output.extract n m.output.size).toList ++ m.waiting.toList) =
      m.output.toList ++ m.waiting.toList ++ []
    rw [← List.append_assoc, hl, List.append_nil]

theorem answers_stored (m : Machine) (requests : List Request) :
    (m.answers requests).1 ++ (m.answers requests).2.stored = m.stored ++ m.allMade requests := by
  induction requests generalizing m with
  | nil => exact (List.append_nil _).symm
  | cons r requests ih =>
    rw [answers_cons, List.append_assoc, ih, ← List.append_assoc, answer_stored, allMade, List.append_assoc]

theorem skip_eq (m : Machine) (clocks : Nat) : m.skip clocks = { m.run clocks with output := m.output } := by
  have ho : (m.run clocks).output = m.output ++ (m.advance clocks).dueFrames := rfl
  have he : (m.run clocks).output.extract 0 m.output.size = m.output := by
    rw [ho, Array.extract_append_left, Array.extract_size]
  unfold skip
  dsimp only
  rw [he]

theorem reading (m : Machine) (limit count : Nat) :
    let part := Samples.take count (m.samples limit) #[]
    let rest := part.2.drain #[]
    part.2.sizeHint = (rest.1.size, some rest.1.size) ∧ part.1.size + rest.1.size = min limit m.available ∧
      part.1 = m.output.extract 0 part.1.size ∧
      part.2.close = { m with output := m.output.extract part.1.size m.output.size } := by
  intro part rest
  have hp : part = ((m.samples limit).front (min count (min limit m.available)),
      (m.samples limit).past (min count (min limit m.available))) := by
    have ht := (m.samples limit).take_eq count #[]
    rw [Array.empty_append, count_samples] at ht
    exact ht
  have hr : rest.1 = part.2.front part.2.count := by
    change (part.2.drain #[]).1 = _
    rw [Samples.drain_eq, Array.empty_append]
  have hn : min count (min limit m.available) ≤ (m.samples limit).count := Nat.min_le_right ..
  have hc : part.2.count = min limit m.available - min count (min limit m.available) := by
    rw [hp, Samples.count_past, count_samples]
  have hps : part.1.size = min count (min limit m.available) := by
    rw [hp]
    exact Samples.size_front _ hn
  have hrs : rest.1.size = part.2.count := by
    rw [hr]
    exact Samples.size_front _ (Nat.le_refl _)
  refine ⟨?_, by omega, ?_, ?_⟩
  · rw [hrs]
    exact Samples.sizeHint_eq _
  · rw [hps, hp]
    simp only [Samples.front, samples, Nat.zero_add]
  · rw [hps, hp, Samples.close_past]
    simp only [samples, Nat.zero_add]

/-- Every frame is delivered once and in order: what the host has read, what is in the output queue and what waits in
the sound generator are together the frames that its ticks made. A reading announces how many frames it gives, and
touches nothing but the output queue; skipping is running without the frames. -/
theorem delivery {m : Machine} (ho : m.output = #[]) (hw : m.waiting = #[]) (requests : List Request) :
    (m.answers requests).1 ++ (m.answers requests).2.output.toList ++ (m.answers requests).2.waiting.toList =
        m.allMade requests ∧
      (∀ (n : Machine) (limit : Nat), ((n.samples limit).drain #[]).1.size = min limit n.available ∧
        ∀ count : Nat,
          let part := Samples.take count (n.samples limit) #[]
          let rest := part.2.drain #[]
          part.2.sizeHint = (rest.1.size, some rest.1.size) ∧ part.1.size + rest.1.size = min limit n.available ∧
            part.1 = n.output.extract 0 part.1.size ∧
            part.2.close = { n with output := n.output.extract part.1.size n.output.size }) ∧
      ∀ (n : Machine) (clocks : Nat), n.skip clocks = { n.run clocks with output := n.output } := by
  refine ⟨?_, fun n limit ↦ ⟨?_, n.reading limit⟩, skip_eq⟩
  · have h := m.answers_stored requests
    rw [stored, stored, ho, hw, ← List.append_assoc] at h
    exact h
  · rw [Samples.drain_eq, Array.empty_append, Samples.size_front _ (Nat.le_refl _), count_samples]

theorem delivery_initial :
    initial.output = #[] ∧ initial.waiting = #[] ∧
      (initial.answers [.run 100, .read 2 1, .step, .read 9 9]).1 ++
          (initial.answers [.run 100, .read 2 1, .step, .read 9 9]).2.output.toList ++
          (initial.answers [.run 100, .read 2 1, .step, .read 9 9]).2.waiting.toList =
        initial.allMade [.run 100, .read 2 1, .step, .read 9 9] :=
  ⟨rfl, rfl, (delivery rfl rfl _).1⟩

end Machine

end SoundUnit
