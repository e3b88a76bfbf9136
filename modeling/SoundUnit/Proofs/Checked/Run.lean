import SoundUnit.Proofs.Checked.Machine
import SoundUnit.Proofs.Machine.Stepping

namespace SoundUnit

open Checked

namespace Core

/-- The checked loop ends: it takes steps until as many clocks have been executed as were asked for. -/
inductive RunsTo (target : Nat) : Nat → Core → Nat × Core → Prop
  | reached {executed : Nat} {c : Core} (h : target ≤ executed) : RunsTo target executed c (executed, c)
  | step {executed executed' clocks : Nat} {c next : Core} {result : Nat × Core} (h : executed < target)
      (hs : c.step? = some (clocks, next)) (hc : below sizeBound (executed + clocks) = some executed')
      (hr : RunsTo target executed' next result) : RunsTo target executed c result

variable {target executed : Nat} {c : Core}

theorem RunsTo.unique {result result' : Nat × Core} (h : RunsTo target executed c result)
    (h' : RunsTo target executed c result') : result = result' := by
  induction h with
  | reached hle =>
    cases h' with
    | reached => rfl
    | step hlt => exact absurd hlt (Nat.not_lt.2 hle)
  | step hlt hs hc _ ih =>
    cases h' with
    | reached hle => exact absurd hlt (Nat.not_lt.2 hle)
    | step _ hs' hc' hr' =>
      cases hs.symm.trans hs'
      cases hc.symm.trans hc'
      exact ih hr'

theorem runsTo_runTo (hv : c.bus.DevicesValid) (hc : executed < target → (c.runTo target executed).1 < sizeBound) :
    RunsTo target executed c (c.runTo target executed) := by
  induction executed, c using run_induction target with
  | reached executed c hle =>
    rw [runTo_of_le hle]
    exact .reached hle
  | step executed c hlt ih =>
    have hb := hc hlt
    rw [runTo_of_lt hlt] at hb ⊢
    have hle : executed + c.step.1 ≤ (c.step.2.runTo target (executed + c.step.1)).1 := executed_le_runTo ..
    exact .step hlt (step?_eq hv) (below_of (Nat.lt_of_le_of_lt hle hb)) (ih (devicesValid_step hv) fun _ ↦ hb)

end Core

namespace Machine

def RunsTo (m : Machine) (clocks : Nat) (result : Machine) : Prop :=
  ∃ target executed core, below sizeBound (m.target + clocks) = some target ∧
    m.core.RunsTo target m.executed (executed, core) ∧ release? { m with core, executed, target } = some result

def steps? : Nat → Machine → Option Machine
  | 0, m => some m
  | n + 1, m => do
    let m ← m.step?
    steps? n m

variable {m : Machine}

theorem RunsTo.unique {clocks : Nat} {result result' : Machine} (h : m.RunsTo clocks result)
    (h' : m.RunsTo clocks result') : result = result' := by
  obtain ⟨target, executed, core, ht, hr, hm⟩ := h
  obtain ⟨target', executed', core', ht', hr', hm'⟩ := h'
  cases ht.symm.trans ht'
  cases hr.unique hr'
  exact Option.some.inj (hm.symm.trans hm')

theorem runsTo_iff (h : m.core.bus.DevicesValid) {clocks : Nat} (ht : m.target + clocks < sizeBound)
    (hc : m.executed < m.target + clocks → (m.run clocks).executed < sizeBound) {result : Machine} :
    m.RunsTo clocks result ↔ result = m.run clocks := by
  have hr : m.RunsTo clocks (m.run clocks) :=
    ⟨m.target + clocks, _, _, below_of ht, Core.runsTo_runTo h hc, release?_eq ht⟩
  constructor
  · intro hr'
    exact hr'.unique hr
  · rintro rfl
    exact hr

theorem steps?_eq (h : m.core.bus.DevicesValid) {n : Nat} (hc : (m.steps n).executed < sizeBound) :
    m.steps? n = some (m.steps n) := by
  induction n generalizing m with
  | zero => rfl
  | succ n ih =>
    have hle : m.step.2.executed + 2 * n ≤ (m.steps (n + 1)).executed := m.step.2.executed_steps_le n
    have he : m.step.2.executed = m.executed + m.core.step.1 := rfl
    rw [steps?, step?_eq h (by omega), Option.bind_eq_bind, Option.bind_some]
    exact ih (devicesValid_operate h .step) hc

/-- From every state whose devices are in range, with any memory: a run for which there is room in the counts ends, in
one state only, and no operation in it fails. Each step of it takes two to twelve clocks, so it has no more steps than
half the clocks that are missing, and with its last step it goes past the target by eleven clocks at most. -/
theorem run_terminates (h : m.core.bus.DevicesValid) {clocks : Nat} (hc : m.target + clocks + 12 ≤ 2 ^ 64) :
    let target := m.target + clocks
    let n := m.core.runLength target m.executed
    (∀ c : Core, 2 ≤ c.step.1 ∧ c.step.1 ≤ 12) ∧
      (∀ result, m.RunsTo clocks result ↔ result = m.run clocks) ∧
      m.core.runTo target m.executed = m.core.steps n m.executed ∧
      (∀ k < n, (m.core.steps k m.executed).1 < target) ∧
      n ≤ (target - m.executed + 1) / 2 ∧
      (n ≠ 0 → (m.run clocks).target = target ∧ target ≤ (m.run clocks).executed ∧
        (m.run clocks).executed ≤ target + 11) := by
  intro target n
  have hlt : m.executed < target → (m.run clocks).executed < target + 12 := by
    intro hlt
    exact Core.runTo_lt (Nat.lt_add_right 12 hlt) m.core
  obtain ⟨hsteps, hbefore⟩ := m.core.runTo_eq_steps target m.executed
  have hlength := m.core.runLength_le target m.executed
  refine ⟨fun c ↦ ⟨c.two_le_step, c.step_le⟩, fun result ↦ ?_, hsteps, hbefore, hlength, ?_⟩
  · apply runsTo_iff h
    · unfold sizeBound
      omega
    · intro he
      have hr := hlt he
      unfold sizeBound
      omega
  · intro hn
    have he : m.executed < target := hbefore 0 (Nat.pos_of_ne_zero hn)
    have hr := hlt he
    exact ⟨rfl, Core.target_le_runTo .., by omega⟩

theorem run_terminates_lastClock :
    let m : Machine := { initial with executed := 2 ^ 64 - 20, target := 2 ^ 64 - 22 }
    m.core.bus.DevicesValid ∧ m.target + 10 + 12 ≤ 2 ^ 64 ∧ m.RunsTo 10 (m.run 10) ∧
      m.core.runLength (m.target + 10) m.executed ≤ 4 := by
  intro m
  have hd : m.core.bus.DevicesValid := ⟨Bus.powerOn_timersValid, Dsp.initial_valid⟩
  have hc : m.target + 10 + 12 ≤ 2 ^ 64 := by decide
  obtain ⟨-, hr, -, -, hn, -⟩ := run_terminates hd hc
  have hle : (m.target + 10 - m.executed + 1) / 2 ≤ 4 := by decide
  exact ⟨hd, hc, (hr _).2 rfl, Nat.le_trans hn hle⟩

/-- From every machine that a host reaches, one or more steps lead to the same machine as one run to the clock at which
the last of them ends, and the run consists of these steps. If there is room for this clock in the counts, no operation
of the steps or the run fails. -/
theorem Reachable.steps_eq_run (h : m.Reachable) {n : Nat} (hn : 1 ≤ n) :
    let s := m.steps n
    let clocks := s.executed - m.target
    m.target + clocks = s.executed ∧ s = m.run clocks ∧
      m.core.runLength (m.target + clocks) m.executed = n ∧
      (s.executed < 2 ^ 64 → m.steps? n = some s ∧ m.RunsTo clocks s) := by
  intro s clocks
  have hle := h.settled.1
  have hge : m.executed + 2 * n ≤ s.executed := m.executed_steps_le n
  have ht : m.target + clocks = s.executed := by omega
  have hs : s = m.run clocks := by
    obtain ⟨k, rfl⟩ := Nat.exists_eq_add_of_le' hn
    exact steps_succ_eq_run hle k
  refine ⟨ht, hs, ?_, fun hc ↦ ⟨steps?_eq h.devicesValid hc, ?_⟩⟩
  · rw [ht, show s.executed = _ from m.executed_steps n]
    exact m.core.runLength_steps n m.executed
  · apply (runsTo_iff h.devicesValid (ht.symm ▸ hc) fun _ ↦ ?_).2 hs
    rw [← hs]
    exact hc

theorem steps_eq_run_ahead :
    (initial.run 1).Reachable ∧
      (initial.run 1).steps 3 = (initial.run 1).run (((initial.run 1).steps 3).executed - 1) := by
  have h : (initial.run 1).Reachable := .operate .initial (.run 1)
  exact ⟨h, (h.steps_eq_run (by decide)).2.1⟩

end Machine

end SoundUnit
