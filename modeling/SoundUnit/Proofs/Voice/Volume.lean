import SoundUnit.Dsp.Generation
import SoundUnit.Proofs.Voice.Equations

namespace SoundUnit

namespace Voice

def setVolume (v : Voice) (volume : Stereo Int8) : Voice := { v with volume }

variable (v : Voice) (ram : Ram) (tick : Tick) (volume : Stereo Int8)

theorem decode_setVolume (directory : UInt16) :
    (v.setVolume volume).decode ram directory =
      ((v.decode ram directory).1.setVolume volume, (v.decode ram directory).2) := by
  obtain ⟨⟨stream, event⟩, h⟩ : ∃ p, v.stream.decodeGroup ram (v.loopAddress ram directory) = p := ⟨_, rfl⟩
  have h' : (v.setVolume volume).stream.decodeGroup ram ((v.setVolume volume).loopAddress ram directory) =
      (stream, event) := h
  rw [decode_of h, decode_of h']
  split <;> rfl

theorem restarted_setVolume : (v.setVolume volume).restarted ram tick = (v.restarted ram tick).setVolume volume := by
  unfold restarted
  by_cases h : v.startDelay = keyOnDelay
  · have h' : (v.setVolume volume).startDelay = keyOnDelay := h
    rw [if_pos h, if_pos h']
    rfl
  · have h' : (v.setVolume volume).startDelay ≠ keyOnDelay := h
    rw [if_neg h, if_neg h']

theorem warmUp_setVolume :
    (v.setVolume volume).warmUp ram tick = ((v.warmUp ram tick).1.setVolume volume, (v.warmUp ram tick).2) := by
  unfold warmUp
  by_cases h : 1 ≤ v.startDelay ∧ v.startDelay ≤ 3
  · have h' : 1 ≤ (v.setVolume volume).startDelay ∧ (v.setVolume volume).startDelay ≤ 3 := h
    rw [if_pos h, if_pos h', decode_setVolume]
  · have h' : ¬ (1 ≤ (v.setVolume volume).startDelay ∧ (v.setVolume volume).startDelay ≤ 3) := h
    rw [if_neg h, if_neg h']

theorem refill_setVolume (directory : UInt16) :
    (v.setVolume volume).refill ram directory =
      ((v.refill ram directory).1.setVolume volume, (v.refill ram directory).2) := by
  unfold refill
  by_cases h : groupLength ≤ v.counter
  · have h' : groupLength ≤ (v.setVolume volume).counter := h
    rw [if_pos h, if_pos h', decode_setVolume]
  · have h' : ¬ groupLength ≤ (v.setVolume volume).counter := h
    rw [if_neg h, if_neg h']

theorem move_setVolume (modulator : Option Int16) :
    (v.setVolume volume).move modulator = (v.move modulator).setVolume volume := by
  unfold move
  by_cases h : v.envelope.stage = .off
  · have h' : (v.setVolume volume).envelope.stage = .off := h
    rw [if_pos h, if_pos h']
  · have h' : (v.setVolume volume).envelope.stage ≠ .off := h
    rw [if_neg h, if_neg h']
    rfl

theorem clock_setVolume :
    (v.setVolume volume).clock ram tick = ((v.clock ram tick).1.setVolume volume, (v.clock ram tick).2) := by
  by_cases hd : 0 < v.startDelay
  · have hd' : 0 < (v.setVolume volume).startDelay := hd
    have hc (w : Voice) : (w.setVolume volume).countDown = w.countDown.setVolume volume := rfl
    rw [clock_of_starting v ram tick hd, clock_of_starting _ ram tick hd', startUp_parts, startUp_parts,
      restarted_setVolume, hc, warmUp_setVolume]
    rfl
  · have hd' : ¬ 0 < (v.setVolume volume).startDelay := hd
    by_cases ho : v.envelope.stage = .off
    · have ho' : (v.setVolume volume).envelope.stage = .off := ho
      rw [clock_of_off v ram tick hd ho, clock_of_off _ ram tick hd' ho']
      rfl
    · have ho' : (v.setVolume volume).envelope.stage ≠ .off := ho
      have hs : (v.setVolume volume).sounded tick = (v.sounded tick).setVolume volume := rfl
      rw [clock_of_playing v ram tick hd ho, clock_of_playing _ ram tick hd' ho', play_eq, play_eq, hs, advance_eq,
        advance_eq, refill_setVolume, move_setVolume]
      rfl

theorem applyKeys_setVolume (off on : Bool) :
    (v.setVolume volume).applyKeys off on = (v.applyKeys off on).setVolume volume := by
  cases off <;> cases on <;> rfl

theorem setVolume_self : v.setVolume v.volume = v := rfl

theorem loudness_setVolume_zero : (v.setVolume ⟨0, 0⟩).loudness = ⟨0, 0⟩ := by
  have h (x : Int) : x * (0 : Int8).toInt / 128 = 0 := by
    rw [Int8.toInt_zero, Int.mul_zero, Int.zero_ediv]
  unfold loudness setVolume Stereo.map
  simp only [h]

end Voice

end SoundUnit
