import SoundUnit.Proofs.Machine.Host

namespace SoundUnit

namespace Machine

/-- The clocks that the sound generator has been given. -/
def supplied (m : Machine) : Nat := m.released * Dsp.sampleClocks + m.core.backlog

theorem supplied_release (m : Machine) : m.release.supplied = m.supplied := by
  have h := congrArg supplied m.enqueue_withoutDue
  have hs : (m.dueFrames ++ m.withoutDue.waiting).size = m.dueFrames.size + m.withoutDue.waiting.size :=
    Array.size_append
  change m.withoutDue.released * Dsp.sampleClocks +
    ((m.dueFrames ++ m.withoutDue.waiting).size * Dsp.sampleClocks + m.withoutDue.core.bus.dsp.elapsed) = _ at h
  rw [← h, hs]
  change (m.withoutDue.released + m.dueFrames.size) * Dsp.sampleClocks +
    (m.withoutDue.waiting.size * Dsp.sampleClocks + m.withoutDue.core.bus.dsp.elapsed) = _
  simp only [Nat.add_mul]
  omega

theorem supplied_advance (m : Machine) (clocks : Nat) :
    (m.advance clocks).supplied + m.executed = m.supplied + (m.advance clocks).executed := by
  have h := Core.backlog_runTo (m.target + clocks) m.executed m.core
  simp only [supplied, advance]
  omega

theorem released_release {m : Machine} (h : m.released ≤ m.target / Dsp.sampleClocks)
    (hw : m.target / Dsp.sampleClocks ≤ m.released + m.waiting.size) :
    m.release.released = m.target / Dsp.sampleClocks := by
  have hs := m.size_dueFrames
  change m.released + m.dueFrames.size = _
  unfold due at hs
  omega

theorem supplied_eq {m : Machine} (h : m.core.bus.dsp.elapsed < Dsp.sampleClocks) :
    m.released + m.waiting.size = m.supplied / Dsp.sampleClocks ∧
      m.core.bus.dsp.elapsed = m.supplied % Dsp.sampleClocks := by
  simp only [supplied, Core.backlog, Dsp.backlog, waiting, Dsp.sampleClocks] at h ⊢
  omega

theorem devicesValid_release {m : Machine} (h : m.core.bus.DevicesValid) : m.release.core.bus.DevicesValid :=
  ⟨h.1, h.2.take m.due⟩

theorem devicesValid_run {m : Machine} (h : m.core.bus.DevicesValid) (clocks : Nat) :
    (m.run clocks).core.bus.DevicesValid :=
  devicesValid_release (m := m.advance clocks) (Core.devicesValid_runTo _ h)

theorem devicesValid_operate {m : Machine} (h : m.core.bus.DevicesValid) (o : HostOperation) :
    (m.operate o).core.bus.DevicesValid := by
  cases o with
  | create bootImage ramImage =>
    rcases m.create_cases bootImage ramImage with he | ⟨rom, ram, he, -⟩
    · rw [he]
      exact h
    · rw [he]
      exact Bus.reset_devicesValid { ram, bootRom := rom }
  | writePort port data => exact h.writePort port data
  | run clocks => exact devicesValid_run h clocks
  | skip clocks => exact devicesValid_run h clocks
  | step => exact devicesValid_release (m := m.advanceStep) (Core.devicesValid_step h)
  | read n => exact h
  | reset soft => cases soft <;> exact Bus.reset_devicesValid m.core.bus
  | clearEcho => exact h.clearEcho
  | mute mask => exact h.mute mask

theorem Reachable.devicesValid {m : Machine} (h : m.Reachable) : m.core.bus.DevicesValid := by
  induction h with
  | initial => exact ⟨Bus.powerOn_timersValid, Dsp.initial_valid⟩
  | operate _ o ih => exact devicesValid_operate ih o
  | @restore m _ bytes ih =>
    rcases m.restore_cases bytes with he | hl
    · rw [he]
      exact ih
    · obtain ⟨-, hv, -⟩ := Snapshot.decode_eq_ok.1 (load_eq_ok.1 hl)
      exact ⟨hv.1, hv.2.1⟩

/-- The devices are in states that they can reach, the processor is less than a step ahead of the asked-for time, the
samples up to that time are released, and the sound generator was given every clock that was executed. -/
structure Consistent (m : Machine) : Prop where
  devices : m.core.bus.DevicesValid
  le : m.target ≤ m.executed
  lt : m.executed < m.target + Core.maxStepClocks
  released : m.released = m.target / Dsp.sampleClocks
  supplied : m.supplied = m.executed
  ramImage : ∀ image ∈ m.ramImage, image.size = Ram.size

namespace Consistent

variable {m : Machine}

theorem of_time_zero (hd : m.core.bus.DevicesValid) (hi : ∀ image ∈ m.ramImage, image.size = Ram.size)
    (he : m.executed = 0) (ht : m.target = 0) (hr : m.released = 0) (hb : m.core.backlog = 0) : m.Consistent where
  devices := hd
  le := Nat.le_of_eq (ht.trans he.symm)
  lt := by
    rw [he, ht]
    decide
  released := by rw [hr, ht, Nat.zero_div]
  supplied := by rw [Machine.supplied, hr, hb, he, Nat.zero_mul]
  ramImage := hi

theorem start (rom : BootRom) (ram : Ram) {image : Option ByteArray} (h : ∀ i ∈ image, i.size = Ram.size) :
    (Machine.start rom ram image).Consistent :=
  of_time_zero (Bus.reset_devicesValid { ram, bootRom := rom }) h rfl rfl rfl rfl

theorem reset (h : m.Consistent) (soft : Bool) : (m.reset soft).Consistent := by
  have hd : (m.reset soft).core.bus.DevicesValid := by
    cases soft <;> exact Bus.reset_devicesValid m.core.bus
  have hb : (m.reset soft).core.backlog = 0 := by cases soft <;> rfl
  exact of_time_zero hd h.ramImage rfl rfl rfl hb

theorem release (hd : m.core.bus.DevicesValid) (hle : m.target ≤ m.executed)
    (hlt : m.executed < m.target + Core.maxStepClocks) (hr : m.released ≤ m.target / Dsp.sampleClocks)
    (hs : m.supplied = m.executed) (hi : ∀ image ∈ m.ramImage, image.size = Ram.size) : m.release.Consistent where
  devices := devicesValid_release hd
  le := hle
  lt := hlt
  released := by
    refine released_release hr ?_
    rw [(supplied_eq hd.2.1).1, hs]
    exact Nat.div_le_div_right hle
  supplied := (supplied_release m).trans hs
  ramImage := hi

theorem run (h : m.Consistent) (clocks : Nat) : (m.run clocks).Consistent := by
  refine release (m := m.advance clocks) (Core.devicesValid_runTo _ h.devices) (Core.target_le_runTo ..)
    (Core.runTo_lt ?_ m.core) ?_ ?_ h.ramImage
  · have hlt := h.lt
    omega
  · change m.released ≤ (m.target + clocks) / Dsp.sampleClocks
    rw [h.released]
    exact Nat.div_le_div_right (Nat.le_add_right ..)
  · have hs := m.supplied_advance clocks
    have hm := h.supplied
    omega

theorem step (h : m.Consistent) : m.step.2.Consistent := by
  rw [step_eq]
  refine release (m := m.advanceStep) (Core.devicesValid_step h.devices) (Nat.le_refl _)
    (Nat.lt_add_of_pos_right (Nat.zero_lt_succ 11)) ?_ ?_ h.ramImage
  · change m.released ≤ (m.executed + m.core.step.1) / Dsp.sampleClocks
    rw [h.released]
    exact Nat.div_le_div_right (Nat.le_add_right_of_le h.le)
  · have hs : m.released * Dsp.sampleClocks + m.core.backlog = m.executed := h.supplied
    have hb := m.core.backlog_step
    change m.released * Dsp.sampleClocks + m.core.step.2.backlog = m.executed + m.core.step.1
    omega

theorem withOutput (h : m.Consistent) (output : Array Frame) : Consistent { m with output } :=
  ⟨h.devices, h.le, h.lt, h.released, h.supplied, h.ramImage⟩

theorem withBus (h : m.Consistent) {f : Bus → Bus} (hd : (f m.core.bus).DevicesValid)
    (hb : (f m.core.bus).dsp.backlog = m.core.bus.dsp.backlog) : (m.withBus f).Consistent where
  devices := hd
  le := h.le
  lt := h.lt
  released := h.released
  supplied := (congrArg (m.released * Dsp.sampleClocks + ·) hb).trans h.supplied
  ramImage := h.ramImage

theorem operate (h : m.Consistent) (o : HostOperation) : (m.operate o).Consistent := by
  cases o with
  | create bootImage ramImage =>
    rcases m.create_cases bootImage ramImage with he | ⟨rom, ram, he, hi⟩
    · rw [he]
      exact h
    · rw [he]
      exact .start rom ram hi
  | writePort port data => exact h.withBus (f := (·.writePort port data)) (h.devices.writePort port data) rfl
  | run clocks => exact h.run clocks
  | skip clocks => exact (h.run clocks).withOutput _
  | step => exact h.step
  | read n => exact h.withOutput _
  | reset soft => exact h.reset soft
  | clearEcho => exact h.withBus (f := Bus.clearEcho) h.devices.clearEcho rfl
  | mute mask => exact h.withBus (f := (·.mute mask)) (h.devices.mute mask) rfl

theorem clocks (h : m.Consistent) :
    m.released + m.waiting.size = m.executed / Dsp.sampleClocks ∧
      m.core.bus.dsp.elapsed = m.executed % Dsp.sampleClocks := by
  have hs := supplied_eq h.devices.2.1
  rw [h.supplied] at hs
  exact hs

theorem valid (h : m.Consistent) : m.Valid := by
  refine ⟨h.devices.1, h.devices.2, h.le, ?_, h.released, h.clocks.1⟩
  have hle := h.le
  have hlt := h.lt
  omega

end Consistent

end Machine

end SoundUnit
