import SoundUnit.Proofs.Machine.Consistency

namespace SoundUnit

namespace Machine

/-- The executed clocks stay below `2 ^ 63`, and there are no more samples in the output queue than an address space can
hold. -/
def InRange (m : Machine) : Prop := m.executed < 2 ^ 63 ∧ m.output.size < 2 ^ 63

theorem Consistent.load_save {m : Machine} (h : m.Consistent) (hr : m.InRange) : load m.save = .ok m := by
  have hlim : 2 ^ 63 < countLimit := by decide
  have hi : ∀ image ∈ m.ramImage, image.size < countLimit := by
    intro image hm
    rw [h.ramImage image hm]
    decide
  exact h.valid.load_save (h.valid.representable (Nat.lt_trans hr.1 hlim) (Nat.lt_trans hr.2 hlim) hi)

/-- The machines that a host reaches from the initial one if it only loads what such machines have saved. -/
inductive Genuine : Machine → Prop
  | initial : Genuine .initial
  | operate {m : Machine} (h : Genuine m) (o : HostOperation) (hr : (m.operate o).InRange) : Genuine (m.operate o)
  | restore {m saved : Machine} (h : Genuine m) (hs : Genuine saved) : Genuine (m.restore saved.save)

theorem Genuine.consistent {m : Machine} (h : m.Genuine) : m.Consistent ∧ m.InRange := by
  induction h with
  | initial => exact ⟨.start _ _ fun _ hi ↦ (nomatch hi), by decide, by decide⟩
  | operate _ o hr ih => exact ⟨ih.1.operate o, hr⟩
  | restore _ _ _ ih =>
    rw [restore_of_load (ih.1.load_save ih.2)]
    exact ih

/-- In every machine that a host reaches the counts of time agree and the state is valid, and the machine can be saved
and restored in place of any other one. -/
theorem Genuine.restorable {m : Machine} (h : m.Genuine) :
    (m.target ≤ m.executed ∧ m.executed < m.target + Core.maxStepClocks ∧
      m.released = m.target / Dsp.sampleClocks ∧
      m.released + m.core.bus.dsp.frames.size = m.executed / Dsp.sampleClocks ∧
      m.core.bus.dsp.elapsed = m.executed % Dsp.sampleClocks) ∧
    m.Valid ∧ load m.save = .ok m ∧ ∀ other : Machine, other.restore m.save = m := by
  obtain ⟨hc, hr⟩ := h.consistent
  obtain ⟨hw, he⟩ := hc.clocks
  have hl := hc.load_save hr
  exact ⟨⟨hc.le, hc.lt, hc.released, hw, he⟩, hc.valid, hl, restore_of_load hl⟩

theorem restorable_initial_run :
    (initial.run 100).Genuine ∧ load (initial.run 100).save = .ok (initial.run 100) := by
  have hi : initial.Consistent := .start _ _ fun _ h ↦ (nomatch h)
  have ht : (initial.run 100).target = 100 := rfl
  have hc := hi.run 100
  have hlt := hc.lt
  have hrel := hc.released
  have ho : (initial.run 100).output.size + 0 = 0 + (initial.run 100).released := size_output_release _
  rw [ht] at hlt hrel
  have hm : Core.maxStepClocks = 12 := rfl
  have hdiv := Nat.div_le_self 100 Dsp.sampleClocks
  have hg : (initial.run 100).Genuine := by
    refine .operate .initial (.run 100) ⟨?_, ?_⟩
    · change (initial.run 100).executed < _
      omega
    · change (initial.run 100).output.size < _
      omega
  exact ⟨hg, hg.restorable.2.2.1⟩

end Machine

end SoundUnit
