import SoundUnit.Proofs.Machine.Consistency
import SoundUnit.Proofs.Snapshot.Length

namespace SoundUnit

namespace Machine

theorem Valid.supplied {m : Machine} (h : m.Valid) :
    m.supplied = m.executed / Dsp.sampleClocks * Dsp.sampleClocks + m.core.bus.dsp.elapsed := by
  obtain ⟨-, -, -, -, -, hw⟩ := h
  rw [← hw, Nat.add_mul, Nat.add_assoc]
  rfl

theorem supplied_run (m : Machine) (clocks : Nat) :
    (m.run clocks).supplied + m.executed = m.supplied + (m.run clocks).executed := by
  rw [run_eq, supplied_release]
  exact supplied_advance m clocks

theorem clockValid_run_iff {m : Machine} (h : m.Valid) (clocks : Nat) :
    (m.run clocks).ClockValid ↔
      (m.run clocks).supplied / Dsp.sampleClocks = (m.run clocks).executed / Dsp.sampleClocks := by
  obtain ⟨ht, hd, hle, hlt, hr, -⟩ := h
  have ha : (m.advance clocks).core.bus.DevicesValid := Core.devicesValid_runTo _ ⟨ht, hd⟩
  have hle' : (m.run clocks).target ≤ (m.run clocks).executed := Core.target_le_runTo ..
  have hlt' : (m.run clocks).executed < (m.run clocks).target + Core.maxStepClocks :=
    Core.runTo_lt (by omega) m.core
  have hw := (supplied_eq (devicesValid_release ha).2.1).1
  rw [← run_eq] at hw
  constructor
  · intro hc
    rw [← hw]
    exact hc.2.2.2
  · intro hs
    refine ⟨hle', by omega, ?_, hw.trans hs⟩
    refine released_release (m := m.advance clocks) ?_ ?_
    · change m.released ≤ (m.target + clocks) / Dsp.sampleClocks
      rw [hr]
      exact Nat.div_le_div_right (Nat.le_add_right ..)
    · rw [(supplied_eq ha.2.1).1, ← supplied_release, ← run_eq, hs]
      exact Nat.div_le_div_right hle'

theorem clockValid_run_iff_elapsed {m : Machine} (h : m.Valid) (clocks : Nat) :
    (m.run clocks).ClockValid ↔
      (m.core.bus.dsp.elapsed + ((m.run clocks).executed - m.executed)) / Dsp.sampleClocks =
        (m.executed % Dsp.sampleClocks + ((m.run clocks).executed - m.executed)) / Dsp.sampleClocks := by
  have hs := h.supplied
  have hr := m.supplied_run clocks
  have he : m.executed ≤ (m.run clocks).executed := Core.executed_le_runTo ..
  rw [clockValid_run_iff h]
  simp only [Dsp.sampleClocks] at hs ⊢
  omega

theorem representable_run {m : Machine} (h : m.Valid) (hr : m.Representable) (ho : m.output.size < 2 ^ 61)
    {clocks : Nat} (ht : m.target + clocks + Core.maxStepClocks ≤ 2 ^ 64) : (m.run clocks).Representable := by
  have hlim : countLimit = 2 ^ 64 := by decide
  have hlt : (m.run clocks).executed < m.target + clocks + Core.maxStepClocks := by
    obtain ⟨-, -, hle, hlt, -⟩ := h
    exact Core.runTo_lt (by omega) m.core
  have hle : (m.run clocks).target ≤ (m.run clocks).executed := Core.target_le_runTo ..
  have hd : (m.run clocks).core.bus.DevicesValid := devicesValid_run ⟨h.1, h.2.1⟩ clocks
  have hs := h.supplied
  have he : m.core.bus.dsp.elapsed < Dsp.sampleClocks := h.2.1.1
  have hsr := m.supplied_run clocks
  have hw := (supplied_eq hd.2.1).1
  have hout : (m.run clocks).output.size + m.released = m.output.size + (m.run clocks).released :=
    size_output_release _
  have hf : (m.run clocks).waiting.size = (m.run clocks).core.bus.dsp.frames.size := rfl
  simp only [Dsp.sampleClocks] at hs he hw
  exact representable_of_devicesValid hd (by omega) (by omega) (by omega) (by omega) (by omega) hr.ramImage

theorem released_and_load_run_iff {m : Machine} (h : m.Valid) (hr : m.Representable) (ho : m.output.size < 2 ^ 61)
    {clocks : Nat} (ht : m.target + clocks + Core.maxStepClocks ≤ 2 ^ 64) :
    (m.run clocks).released = (m.run clocks).target / Dsp.sampleClocks ∧ (∃ s, load (m.run clocks).save = .ok s) ↔
      (m.run clocks).ClockValid := by
  have hd : (m.run clocks).core.bus.DevicesValid := devicesValid_run ⟨h.1, h.2.1⟩ clocks
  rw [exists_load_save_iff (representable_run h hr ho ht)]
  constructor
  · intro hv
    exact hv.2.2.2
  · intro hc
    exact ⟨hc.2.2.1, hd.1, hd.2, hc⟩

/-- After loading and some runs the samples up to the asked-for time are released, and what is saved can be loaded
again, exactly as long as the sound generator has passed as many ends of samples as the executed clocks have. So this
always holds if the clock of the sound generator agreed with the executed clocks when the state was loaded. -/
theorem load_runs_iff {bytes : List UInt8} {m : Machine} (hl : load bytes = .ok m) (hb : bytes.length < 2 ^ 63) :
    (∀ clocks : List Nat, m.target + clocks.sum + Core.maxStepClocks ≤ 2 ^ 64 → ∀ n, clocks.foldl run m = n →
      (n.released = n.target / Dsp.sampleClocks ∧ (∃ s, load n.save = .ok s) ↔
        (m.core.bus.dsp.elapsed + (n.executed - m.executed)) / Dsp.sampleClocks =
          (m.executed % Dsp.sampleClocks + (n.executed - m.executed)) / Dsp.sampleClocks)) ∧
    (m.core.bus.dsp.elapsed = m.executed % Dsp.sampleClocks →
      ∀ clocks : List Nat, m.target + clocks.sum + Core.maxStepClocks ≤ 2 ^ 64 → ∀ n, clocks.foldl run m = n →
        n.released = n.target / Dsp.sampleClocks ∧ ∃ s, load n.save = .ok s) := by
  obtain ⟨hr, hv, hp⟩ := Snapshot.decode_eq_ok.1 (load_eq_ok.1 hl)
  have ho : m.output.size < 2 ^ 61 := by
    have hlen := hp.length_le
    rw [Snapshot.length_encode] at hlen
    omega
  refine ⟨fun clocks ht n hn ↦ ?_, fun he clocks ht n hn ↦ ?_⟩
  · rw [hv.settled.foldl_run] at hn
    obtain rfl := hn
    rw [released_and_load_run_iff hv hr ho ht, clockValid_run_iff_elapsed hv]
  · rw [hv.settled.foldl_run] at hn
    obtain rfl := hn
    rw [released_and_load_run_iff hv hr ho ht, clockValid_run_iff_elapsed hv, he]

/-- A halted machine at time zero whose sound generator is one clock away from its first sample. -/
def staleClock : Machine where
  core :=
    { registers := { pc := BootRom.base, halted := true }
      bus := { ram := .zero, bootRom := .standard, dsp := { elapsed := 31 } } }

theorem load_runs_iff_staleClock :
    load staleClock.save = .ok staleClock ∧ staleClock.save.length < 2 ^ 63 ∧
      staleClock.target + [2].sum + Core.maxStepClocks ≤ 2 ^ 64 ∧
      ¬ ((staleClock.run 2).released = (staleClock.run 2).target / Dsp.sampleClocks ∧
        ∃ s, load (staleClock.run 2).save = .ok s) := by
  have hv : staleClock.Valid := ⟨Bus.powerOn_timersValid, by decide, by decide⟩
  have hr : staleClock.Representable := hv.representable (by decide) (by decide) fun _ h ↦ (nomatch h)
  have hl := hv.load_save hr
  have hlen : staleClock.save.length = 66343 := Snapshot.length_encode staleClock
  have hb : staleClock.save.length < 2 ^ 63 := by
    rw [hlen]
    decide
  have ht : staleClock.target + [2].sum + Core.maxStepClocks ≤ 2 ^ 64 := by decide
  have he : (staleClock.run 2).executed = 2 := by
    change (staleClock.core.runTo 2 0).1 = 2
    rw [Core.runTo_of_lt (by decide), Core.step_of_halted rfl]
    exact congrArg Prod.fst (Core.runTo_of_le (Nat.le_refl 2) _)
  refine ⟨hl, hb, ht, fun hc ↦ ?_⟩
  have h := ((load_runs_iff hl hb).1 [2] ht _ rfl).1 hc
  change (31 + ((staleClock.run 2).executed - 0)) / 32 = (0 % 32 + ((staleClock.run 2).executed - 0)) / 32 at h
  rw [he] at h
  revert h
  decide

end Machine

end SoundUnit
