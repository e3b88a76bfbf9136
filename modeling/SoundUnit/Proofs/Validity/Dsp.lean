import Mathlib
import SoundUnit.Proofs.Dsp.Production
import SoundUnit.Proofs.Validity.Voice

namespace SoundUnit

namespace Echo

theorem toNat_delayLength (e : Echo) : e.delayLength.toNat = e.delay.toNat % 16 * 2048 := by
  have h : (e.delay &&& 0xF).toNat = e.delay.toNat % 16 := by
    rw [UInt8.toNat_and]
    exact Nat.and_two_pow_sub_one_eq_mod _ 4
  unfold delayLength
  rw [UInt16.toNat_mul, UInt8.toNat_toUInt16, h]
  change e.delay.toNat % 16 * 2048 % 65536 = _
  omega

theorem valid_iff {e : Echo} :
    e.Valid ↔ e.offset.toNat % 4 = 0 ∧ e.offset.toNat < 30720 ∧ e.length.toNat % 4 = 0 ∧
      e.length.toNat ≤ 30720 ∧ e.newest < 8 := by
  unfold Valid
  rw [← UInt16.toNat_inj, ← UInt16.toNat_inj, UInt16.toNat_mod, UInt16.toNat_mod, UInt16.lt_iff_toNat_lt,
    UInt16.le_iff_toNat_le]
  rfl

theorem Valid.receive {e : Echo} (h : e.Valid) (ram : Ram) : (e.receive ram).Valid :=
  ⟨h.1, h.2.1, h.2.2.1, h.2.2.2.1, Fin.isLt _⟩

theorem toNat_offset_add {e : Echo} (h : e.Valid) : (e.offset + frameBytes).toNat = e.offset.toNat + 4 := by
  have hlt := (valid_iff.1 h).2.1
  rw [UInt16.toNat_add]
  change (e.offset.toNat + 4) % 65536 = _
  omega

theorem Valid.advance {e : Echo} (h : e.Valid) : e.advance.Valid := by
  obtain ⟨ho, hlt, hl, hle, hn⟩ := valid_iff.1 h
  have hd := e.toNat_delayLength
  have ha := toNat_offset_add h
  have hlen : e.advance.length.toNat % 4 = 0 ∧ e.advance.length.toNat ≤ 30720 := by
    change (if e.offset = 0 then e.delayLength else e.length).toNat % 4 = 0 ∧
      (if e.offset = 0 then e.delayLength else e.length).toNat ≤ 30720
    split <;> omega
  have hoff : e.advance.offset.toNat = 0 ∨
      e.advance.offset.toNat = e.offset.toNat + 4 ∧ e.offset.toNat + 4 < e.advance.length.toNat := by
    change (if e.advance.length ≤ e.offset + frameBytes then 0 else e.offset + frameBytes).toNat = 0 ∨
      (if e.advance.length ≤ e.offset + frameBytes then 0 else e.offset + frameBytes).toNat =
        e.offset.toNat + 4 ∧ _
    split
    next => exact .inl rfl
    next hnle =>
      rw [UInt16.le_iff_toNat_le] at hnle
      exact .inr ⟨ha, by omega⟩
  refine valid_iff.2 ⟨?_, ?_, hlen.1, hlen.2, hn⟩ <;> omega

theorem Valid.clear {e : Echo} (h : e.Valid) (ram : Ram) : (e.clear ram).1.Valid :=
  have hz : (0 : UInt16) % frameBytes = 0 ∧ (0 : UInt16) < maxLength := by decide
  ⟨hz.1, hz.2, h.2.2.1, h.2.2.2.1, h.2.2.2.2⟩

end Echo

theorem Voice.Valid.applyKeys {v : Voice} (h : v.Valid) (off on : Bool) :
    (v.applyKeys off on).Valid := by
  cases off <;> cases on
  · exact h
  · exact h.keyOn
  · exact h.keyOff
  · exact h.keyOff.keyOn

namespace Dsp

theorem toNat_nextCounter {counter : UInt16} (h : counter.toNat < Rate.range) :
    (Rate.nextCounter counter).toNat < Rate.range := by
  unfold Rate.nextCounter Rate.range at *
  split
  · decide
  next hne =>
    have hne' : counter.toNat ≠ 0 := fun e ↦ hne (UInt16.toNat_inj.1 e)
    rw [UInt16.toNat_sub_of_le _ _ (UInt16.le_iff_toNat_le.2 (by change 1 ≤ _; omega))]
    omega

theorem Valid.of_voices {d : Dsp} (h : d.Valid) {voices : Vector Voice 8} (hv : ∀ v : Fin 8, (voices.get v).Valid) :
    Valid { d with voices } := ⟨h.1, h.2.1, h.2.2.1, hv⟩

theorem Valid.setVoice {d : Dsp} (h : d.Valid) (v : Fin 8) {voice : Voice} (hv : voice.Valid) :
    Valid { d with voices := d.voices.setIfInBounds v voice } := by
  refine h.of_voices fun i ↦ ?_
  simp only [Vector.get_eq_getElem, Vector.getElem_setIfInBounds]
  split
  · exact hv
  · exact h.2.2.2 i

theorem Valid.writeRegister {d : Dsp} (h : d.Valid) (data : UInt8) (r : DspRegister) :
    (d.writeRegister data r).Valid := by
  cases r with
  | voice v r => exact h.setVoice v ((h.2.2.2 v).writeRegister data r)
  | tap i => exact h
  | global r => cases r <;> exact h

theorem Valid.write {d : Dsp} (h : d.Valid) (addr data : UInt8) : (d.write addr data).Valid := by
  unfold Dsp.write
  split
  · exact h.writeRegister data _
  · exact h

theorem Valid.stepCounter {d : Dsp} (h : d.Valid) : d.stepCounter.Valid :=
  ⟨h.1, toNat_nextCounter h.2.1, h.2.2⟩

theorem Valid.stepNoise {d : Dsp} (h : d.Valid) : d.stepNoise.Valid := h

theorem Valid.applyKeys {d : Dsp} (h : d.Valid) : d.applyKeys.Valid := by
  unfold Dsp.applyKeys
  split
  · refine h.of_voices fun v ↦ ?_
    rw [Vector.get_map]
    exact (h.2.2.2 v).stop
  · refine h.of_voices fun v ↦ ?_
    rw [Vector.get_ofFn]
    exact (h.2.2.2 v).applyKeys _ _

theorem Valid.clockVoice {d : Dsp} (h : d.Valid) (ram : Ram) (v : Fin 8) : (clockVoice ram d v).Valid :=
  h.setVoice v ((h.2.2.2 v).clock ram (d.voiceTick v))

theorem Valid.clockVoices {d : Dsp} (h : d.Valid) (ram : Ram) : (d.clockVoices ram).Valid :=
  List.foldlRecOn allVoices (Dsp.clockVoice ram) h fun _ hd v _ ↦ hd.clockVoice ram v

theorem Valid.prepare {d : Dsp} (h : d.Valid) (ram : Ram) : (d.prepare ram).Valid :=
  h.stepCounter.stepNoise.applyKeys.clockVoices ram

theorem Valid.finish {d : Dsp} (h : d.Valid) (ram : Ram) : (d.finish ram).2.1.Valid :=
  ⟨h.1, h.2.1, (h.2.2.1.receive ram).advance, h.2.2.2⟩

theorem Valid.generate {d : Dsp} (h : d.Valid) (ram : Ram) : (d.generate ram).2.1.Valid := by
  rw [generate_eq_finish]
  exact (h.prepare ram).finish ram

theorem Valid.push {d : Dsp} (h : d.Valid) (frame : Frame) : (d.push frame).Valid := h

theorem Valid.tick {d : Dsp} (h : d.Valid) (ram : Ram) : (d.tick ram).1.Valid := by
  rw [tick_eq]
  exact (h.generate ram).push _

theorem Valid.ticks {d : Dsp} (h : d.Valid) (n : Nat) (ram : Ram) : (ticks n d ram).1.Valid := by
  induction n generalizing d ram with
  | zero => exact h
  | succ n ih => exact ih (h.tick ram) _

theorem Valid.clock {d : Dsp} (h : d.Valid) (clocks : Nat) (ram : Ram) : (d.clock clocks ram).1.Valid := by
  have he : (d.elapsed + clocks) % sampleClocks < sampleClocks := Nat.mod_lt _ (by decide)
  exact Valid.ticks (d := { d with elapsed := (d.elapsed + clocks) % sampleClocks }) ⟨he, h.2⟩ _ ram

theorem Valid.take {d : Dsp} (h : d.Valid) (n : Nat) : (d.take n).2.Valid := h

theorem Valid.clearEcho {d : Dsp} (h : d.Valid) (ram : Ram) : (d.clearEcho ram).1.Valid :=
  ⟨h.1, h.2.1, h.2.2.1.clear ram, h.2.2.2⟩

theorem initial_valid : Dsp.Valid {} := by decide

end Dsp

end SoundUnit
