import SoundUnit.Proofs.Voice.Resampler
import SoundUnit.Proofs.Voice.Stages

namespace SoundUnit

namespace Voice

/-- What has become of a voice that is off. Only the registers that programs can write may have changed. -/
structure Rests (u w : Voice) : Prop where
  startDelay : w.startDelay = 0
  stage : w.envelope.stage = .off
  level : w.envelope.level = 0
  hidden : w.envelope.hidden = u.envelope.hidden
  stream : w.stream = u.stream
  counter : w.counter = u.counter

theorem Contained.receive {v : Voice} (h : v.Contained) (m : Moment) : (v.receive m).Contained :=
  receive_invariant (fun _ data r h ↦ h.writeRegister data r) (fun _ _ h ↦ h.keyOff) h

theorem Contained.startDelay_of_off {u : Voice} (h : u.Contained) (ho : u.envelope.stage = .off) :
    u.startDelay = 0 := by
  refine Decidable.byContradiction fun hd ↦ ?_
  obtain ⟨-, ha | hr⟩ := h.starting hd
  · rw [ha] at ho
    exact nomatch ho
  · rw [hr] at ho
    exact nomatch ho

theorem Contained.rests {u : Voice} (h : u.Contained) (ho : u.envelope.stage = .off) : u.Rests u :=
  ⟨h.startDelay_of_off ho, ho, h.envelope.off ho, rfl, rfl, rfl⟩

namespace Rests

variable {u w : Voice}

theorem writeRegister (h : u.Rests w) (data : UInt8) (r : VoiceRegister) : u.Rests (w.writeRegister data r) := by
  obtain ⟨h₁, h₂, h₃, h₄, h₅, h₆⟩ := h
  cases r <;> exact ⟨h₁, h₂, h₃, h₄, h₅, h₆⟩

theorem keyOff (h : u.Rests w) : u.Rests w.keyOff := by
  have he : w.envelope.keyOff = w.envelope := by
    rw [Envelope.keyOff, if_pos h.stage, ← h.stage]
  rw [Voice.keyOff, he]
  exact h

theorem stop (h : u.Rests w) : u.Rests w.stop := by
  have he : w.envelope.stop = w.envelope := by
    rw [Envelope.stop, ← h.stage, ← h.level]
  rw [Voice.stop, he, ← h.startDelay]
  exact h

theorem receive (h : u.Rests w) (m : Moment) : u.Rests (w.receive m) :=
  receive_invariant (fun _ data r h ↦ h.writeRegister data r) (fun _ _ h ↦ h.keyOff) h

theorem clock (h : u.Rests w) (ram : Ram) (tick : Tick) :
    u.Rests (w.clock ram tick).1 ∧ (w.clock ram tick).1.output = 0 ∧ (w.clock ram tick).2 = false := by
  rw [clock_of_off w ram tick (not_starting h.startDelay) h.stage]
  exact ⟨⟨h.startDelay, h.stage, h.level, h.hidden, h.stream, h.counter⟩, rfl, rfl⟩

theorem foldl_live (h : u.Rests w) (ho : w.output = 0) (moments : List Moment) :
    u.Rests (moments.foldl live w) ∧ (moments.foldl live w).output = 0 := by
  induction moments generalizing w with
  | nil => exact ⟨h, ho⟩
  | cons m moments ih =>
    obtain ⟨hr, hz, -⟩ := (h.receive m).clock m.ram m.tick
    exact ih hr hz

end Rests

end Voice

end SoundUnit
