import Mathlib
import SoundUnit.Proofs.Dsp.Mixing
import SoundUnit.Proofs.Dsp.Voices
import SoundUnit.Proofs.Voice.Volume

namespace SoundUnit

namespace Dsp

def volumes (d : Dsp) (v : Fin 8) : Stereo Int8 := (d.voices.get v).volume

def remix (d : Dsp) (volumes : Fin 8 → Stereo Int8) (muted : UInt8) : Dsp :=
  { d with voices := Vector.ofFn fun v ↦ (d.voices.get v).setVolume (volumes v), muted }

variable (d : Dsp) (ram : Ram) (volumes : Fin 8 → Stereo Int8) (muted : UInt8)

@[simp] theorem get_voices_remix (v : Fin 8) :
    (d.remix volumes muted).voices.get v = (d.voices.get v).setVolume (volumes v) := Vector.get_ofFn ..

variable {d volumes muted} in
theorem eq_remix {d' : Dsp} (hv : ∀ v, d'.voices.get v = (d.voices.get v).setVolume (volumes v))
    (h : d' = { d with voices := d'.voices, muted }) : d' = d.remix volumes muted := by
  have he : d'.voices = (d.remix volumes muted).voices := by
    refine Vector.ext fun i hi ↦ ?_
    exact (hv ⟨i, hi⟩).trans (get_voices_remix d volumes muted ⟨i, hi⟩).symm
  rw [h, he]
  rfl

theorem remix_self : d.remix d.volumes d.muted = d := (eq_remix (fun _ ↦ rfl) rfl).symm

theorem remix_remix (volumes' : Fin 8 → Stereo Int8) (muted' : UInt8) :
    (d.remix volumes muted).remix volumes' muted' = d.remix volumes' muted' := by
  refine eq_remix (fun v ↦ ?_) rfl
  rw [get_voices_remix, get_voices_remix]
  rfl

theorem applyKeys_remix : (d.remix volumes muted).applyKeys = d.applyKeys.remix volumes muted := by
  unfold applyKeys
  by_cases h : d.softReset
  · have h' : (d.remix volumes muted).softReset := h
    rw [if_pos h, if_pos h']
    refine eq_remix (fun v ↦ ?_) rfl
    dsimp only
    rw [Vector.get_map, Vector.get_map, get_voices_remix]
    rfl
  · have h' : ¬ (d.remix volumes muted).softReset := h
    rw [if_neg h, if_neg h']
    refine eq_remix (fun v ↦ ?_) rfl
    dsimp only
    rw [Vector.get_ofFn, Vector.get_ofFn, get_voices_remix, Voice.applyKeys_setVolume]
    rfl

theorem modulator_remix (v : Fin 8) : (d.remix volumes muted).modulator v = d.modulator v := by
  have hv := get_voices_remix d volumes muted ⟨v.val - 1, Nat.lt_of_le_of_lt (Nat.sub_le ..) v.isLt⟩
  have h : (d.remix volumes muted).voices[v.val - 1].output = d.voices[v.val - 1].output := by
    rw [Vector.get_eq_getElem] at hv
    rw [hv]
    rfl
  unfold modulator
  rw [h]
  rfl

theorem voiceTick_remix (v : Fin 8) : (d.remix volumes muted).voiceTick v = d.voiceTick v := by
  unfold voiceTick
  rw [modulator_remix]
  rfl

theorem clockVoice_remix (v : Fin 8) :
    clockVoice ram (d.remix volumes muted) v = (clockVoice ram d v).remix volumes muted := by
  have hc : ((d.remix volumes muted).voices.get v).clock ram ((d.remix volumes muted).voiceTick v) =
      (((d.voices.get v).clock ram (d.voiceTick v)).1.setVolume (volumes v),
        ((d.voices.get v).clock ram (d.voiceTick v)).2) := by
    rw [voiceTick_remix, get_voices_remix, Voice.clock_setVolume]
  unfold clockVoice
  rw [hc]
  refine eq_remix (fun i ↦ ?_) rfl
  dsimp only
  rw [get_setIfInBounds, get_setIfInBounds, get_voices_remix]
  split
  next he => rw [he]
  next => rfl

theorem clockVoices_remix : (d.remix volumes muted).clockVoices ram = (d.clockVoices ram).remix volumes muted := by
  unfold clockVoices
  generalize allVoices = l
  induction l generalizing d with
  | nil => rfl
  | cons v l ih => rw [List.foldl_cons, List.foldl_cons, clockVoice_remix, ih]

theorem prepare_remix : (d.remix volumes muted).prepare ram = (d.prepare ram).remix volumes muted := by
  unfold prepare
  rw [← clockVoices_remix, ← applyKeys_remix]
  rfl

/-- Before the mix nothing looks at the volumes and the mute mask, and nothing changes them. -/
theorem prepare_keeps_mix : (d.prepare ram).volumes = d.volumes ∧ (d.prepare ram).muted = d.muted := by
  have h := prepare_remix d ram d.volumes d.muted
  rw [remix_self] at h
  generalize d.prepare ram = p at h ⊢
  have hm : p.muted = (p.remix d.volumes d.muted).muted := congrArg Dsp.muted h
  refine ⟨funext fun v ↦ ?_, hm⟩
  have hv : p.voices.get v = (p.remix d.volumes d.muted).voices.get v := congrArg (fun q : Dsp ↦ q.voices.get v) h
  rw [get_voices_remix] at hv
  have hl : p.volumes v = ((p.voices.get v).setVolume (d.volumes v)).volume := congrArg Voice.volume hv
  exact hl

def quieted (mask : UInt8) (volumes : Fin 8 → Stereo Int8) (v : Fin 8) : Stereo Int8 :=
  if Bit.test mask v then ⟨0, 0⟩ else volumes v

def zeroVolume (v : Fin 8) : Dsp :=
  (d.writeRegister 0 (.voice v .volumeLeft)).writeRegister 0 (.voice v .volumeRight)

/-- Writes zero to the volume registers of the voices of a mask. -/
def quieten (mask : UInt8) : Dsp := (allVoices.filter fun v ↦ Bit.test mask v).foldl zeroVolume d

theorem volumes_remix : (d.remix volumes muted).volumes = volumes := by
  funext v
  exact congrArg Voice.volume (get_voices_remix d volumes muted v)

theorem zeroVolume_eq (v : Fin 8) :
    d.zeroVolume v = d.remix (fun i ↦ if i = v then ⟨0, 0⟩ else d.volumes i) d.muted := by
  refine eq_remix (fun i ↦ ?_) rfl
  unfold zeroVolume writeRegister
  dsimp only
  rw [get_setIfInBounds, get_setIfInBounds, get_setIfInBounds, if_pos rfl]
  by_cases h : v = i
  · rw [if_pos h, if_pos h.symm, h]
    rfl
  · rw [if_neg h, if_neg h, if_neg (Ne.symm h)]
    rfl

theorem foldl_zeroVolume (l : List (Fin 8)) :
    l.foldl zeroVolume d = d.remix (fun i ↦ if i ∈ l then ⟨0, 0⟩ else d.volumes i) d.muted := by
  induction l generalizing d with
  | nil => exact (remix_self d).symm
  | cons v l ih =>
    have hv : (fun i ↦ if i ∈ l then ⟨0, 0⟩ else if i = v then ⟨0, 0⟩ else d.volumes i) =
        fun i ↦ if i ∈ v :: l then (⟨0, 0⟩ : Stereo Int8) else d.volumes i := by
      funext i
      by_cases hl : i ∈ l
      · simp only [List.mem_cons, hl, or_true, if_true]
      · simp only [List.mem_cons, hl, or_false, if_false]
    rw [List.foldl_cons, ih, zeroVolume_eq, remix_remix, volumes_remix, hv]
    rfl

theorem quieten_eq (mask : UInt8) : d.quieten mask = d.remix (quieted mask d.volumes) d.muted := by
  unfold quieten
  rw [foldl_zeroVolume]
  congr 1
  funext v
  simp only [List.mem_filter, mem_allVoices, true_and]
  rfl

/-- Every voice is heard again, but those that were muted have no volume. -/
def unmute : Dsp := d.remix (quieted d.muted d.volumes) 0

theorem mute_quieten (mask : UInt8) : (d.quieten mask).mute 0 = (d.mute mask).unmute := by
  rw [quieten_eq]
  rfl

theorem prepare_unmute : d.unmute.prepare ram = (d.prepare ram).unmute := by
  obtain ⟨hv, hm⟩ := prepare_keeps_mix d ram
  unfold unmute
  rw [prepare_remix, hv, hm]

theorem accumulate_unmute (chosen : Fin 8 → Bool) {sum : Stereo Int} (h : sum.Small) (v : Fin 8) :
    d.unmute.accumulate chosen sum v = d.accumulate (fun v ↦ !Bit.test d.muted v && chosen v) sum v := by
  have hv : d.unmute.voices.get v = (d.voices.get v).setVolume (quieted d.muted d.volumes v) :=
    get_voices_remix ..
  unfold accumulate
  rw [hv]
  by_cases hm : Bit.test d.muted v
  · have hl : ((d.voices.get v).setVolume (quieted d.muted d.volumes v)).loudness = ⟨0, 0⟩ := by
      unfold quieted
      rw [if_pos hm]
      exact Voice.loudness_setVolume_zero _
    have hs : sum.zipWith (fun x y ↦ Sample.clamp (x + y)) ⟨0, 0⟩ = sum := by
      unfold Stereo.zipWith
      dsimp only
      rw [Int.add_zero, Int.add_zero, Sample.clamp_of_bounds h.1, Sample.clamp_of_bounds h.2]
    simp only [hl, hs, hm, ite_self, Bool.not_true, Bool.false_and, Bool.false_eq_true, if_false]
  · have hq : quieted d.muted d.volumes v = (d.voices.get v).volume := by
      unfold quieted
      rw [if_neg hm]
      rfl
    rw [hq, Voice.setVolume_self]
    rw [Bool.not_eq_true] at hm
    simp only [hm, Bool.not_false, Bool.true_and]

theorem mix_unmute (chosen : Fin 8 → Bool) :
    d.unmute.mix chosen = d.mix fun v ↦ !Bit.test d.muted v && chosen v := by
  have hz := Stereo.small_zero
  rw [mix_eq, mix_eq]
  generalize (⟨0, 0⟩ : Stereo Int) = sum at hz
  generalize allVoices = l
  induction l generalizing sum with
  | nil => rfl
  | cons v l ih =>
    rw [List.foldl_cons, List.foldl_cons, accumulate_unmute d chosen hz]
    exact ih _ (small_accumulate d _ hz v)

theorem mainMix_unmute : d.unmute.mainMix = d.mainMix := by
  change d.unmute.mix (fun v ↦ !Bit.test 0 v) = d.mix fun v ↦ !Bit.test d.muted v
  rw [mix_unmute]
  simp only [Bit.test_zero, Bool.not_false, Bool.and_true]

theorem echoMix_unmute : d.unmute.echoMix = d.echoMix := by
  change d.unmute.mix (fun v ↦ !Bit.test 0 v && Bit.test d.echo.enable v) =
    d.mix fun v ↦ !Bit.test d.muted v && Bit.test d.echo.enable v
  rw [mix_unmute]
  simp only [Bit.test_zero, Bool.not_false, Bool.true_and]

theorem withEcho_unmute (echo : Echo) : d.unmute.withEcho echo = (d.withEcho echo).unmute := rfl

theorem output_unmute (filtered : Stereo Int) : d.unmute.output filtered = d.output filtered := by
  unfold output
  rw [mainMix_unmute]
  rfl

theorem finish_unmute :
    d.unmute.finish ram = ((d.finish ram).1, (d.finish ram).2.1.unmute, (d.finish ram).2.2) := by
  have he : d.unmute.echo = d.echo := rfl
  have hw (e : Echo) : (d.withEcho e).unmute.echoWrites = (d.withEcho e).echoWrites := rfl
  have hr (e : Echo) : (d.withEcho e).unmute.echo = (d.withEcho e).echo := rfl
  rw [finish_eq, finish_eq]
  dsimp only
  rw [he, withEcho_unmute, output_unmute, echoMix_unmute, hw, hr, withEcho_unmute]

theorem generate_unmute :
    d.unmute.generate ram = ((d.generate ram).1, (d.generate ram).2.1.unmute, (d.generate ram).2.2) := by
  rw [generate_eq_finish, prepare_unmute, finish_unmute, generate_eq_finish]

theorem push_unmute (frame : Frame) : d.unmute.push frame = (d.push frame).unmute := rfl

theorem tick_unmute : d.unmute.tick ram = ((d.tick ram).1.unmute, (d.tick ram).2) := by
  rw [tick_eq, generate_unmute, tick_eq, push_unmute]

theorem ticks_unmute (n : Nat) : ticks n d.unmute ram = ((ticks n d ram).1.unmute, (ticks n d ram).2) := by
  induction n generalizing d ram with
  | zero => rfl
  | succ n ih =>
    rw [ticks, tick_unmute]
    exact ih _ _

theorem withEcho_keeps_mix (echo : Echo) :
    (d.withEcho echo).volumes = d.volumes ∧ (d.withEcho echo).muted = d.muted := ⟨rfl, rfl⟩

theorem finish_keeps_mix : (d.finish ram).2.1.volumes = d.volumes ∧ (d.finish ram).2.1.muted = d.muted := by
  rw [finish_eq]
  dsimp only
  rw [(withEcho_keeps_mix _ _).1, (withEcho_keeps_mix _ _).1, (withEcho_keeps_mix _ _).2, (withEcho_keeps_mix _ _).2]
  exact ⟨rfl, rfl⟩

theorem push_keeps_mix (frame : Frame) :
    (d.push frame).volumes = d.volumes ∧ (d.push frame).muted = d.muted := ⟨rfl, rfl⟩

theorem tick_keeps_mix : (d.tick ram).1.volumes = d.volumes ∧ (d.tick ram).1.muted = d.muted := by
  obtain ⟨hv, hm⟩ := prepare_keeps_mix d ram
  obtain ⟨hv', hm'⟩ := finish_keeps_mix (d.prepare ram) ram
  rw [tick_eq, generate_eq_finish, (push_keeps_mix _ _).1, (push_keeps_mix _ _).2, hv', hm']
  exact ⟨hv, hm⟩

theorem ticks_keep_mix (n : Nat) :
    (ticks n d ram).1.volumes = d.volumes ∧ (ticks n d ram).1.muted = d.muted := by
  induction n generalizing d ram with
  | zero => exact ⟨rfl, rfl⟩
  | succ n ih =>
    obtain ⟨hv, hm⟩ := tick_keeps_mix d ram
    obtain ⟨hv', hm'⟩ := ih (d.tick ram).1 (d.tick ram).2
    rw [ticks, hv', hm']
    exact ⟨hv, hm⟩

theorem readRegister_unmute {r : DspRegister}
    (h : ∀ v, Bit.test d.muted v → r ≠ .voice v .volumeLeft ∧ r ≠ .voice v .volumeRight) :
    d.unmute.readRegister r = d.readRegister r := by
  cases r with
  | voice v r =>
    have hv : d.unmute.voices.get v = (d.voices.get v).setVolume (quieted d.muted d.volumes v) :=
      get_voices_remix ..
    by_cases hm : Bit.test d.muted v
    · obtain ⟨hl, hr⟩ := h v hm
      unfold readRegister
      dsimp only
      rw [hv]
      cases r
      case volumeLeft => exact absurd rfl hl
      case volumeRight => exact absurd rfl hr
      all_goals rfl
    · have hq : quieted d.muted d.volumes v = (d.voices.get v).volume := if_neg hm
      unfold readRegister
      dsimp only
      rw [hv, hq, Voice.setVolume_self]
  | tap i => rfl
  | global r => cases r <;> rfl

/-- Muting voices and setting their volumes to zero are the same, for any number of samples: the frames and the memory
are the same, and the generators differ only in the mask and in these volumes, which neither of them touches. -/
theorem ticks_mute (n : Nat) (mask : UInt8) :
    let muted := ticks n (d.mute mask) ram
    let quiet := ticks n ((d.quieten mask).mute 0) ram
    quiet.1.frames = muted.1.frames ∧ quiet.2 = muted.2 ∧ quiet.1 = (muted.1.quieten mask).mute 0 ∧
      muted.1.muted = mask ∧ muted.1.volumes = d.volumes ∧
      (∀ r, (∀ v, Bit.test mask v → r ≠ .voice v .volumeLeft ∧ r ≠ .voice v .volumeRight) →
        quiet.1.readRegister r = muted.1.readRegister r) ∧
      ∀ v, quiet.1.modulator v = muted.1.modulator v := by
  intro muted quiet
  obtain ⟨hv, hm⟩ : muted.1.volumes = d.volumes ∧ muted.1.muted = mask := ticks_keep_mix (d.mute mask) ram n
  have hq : quiet = (muted.1.unmute, muted.2) := by
    change ticks n ((d.quieten mask).mute 0) ram = _
    rw [mute_quieten, ticks_unmute]
  have hd : quiet.1 = muted.1.unmute := congrArg Prod.fst hq
  have hram : quiet.2 = muted.2 := by rw [hq]
  have hf : quiet.1.frames = muted.1.frames := by
    rw [hd]
    rfl
  have hs : muted.1.mute mask = muted.1 := by
    rw [← hm]
    rfl
  refine ⟨hf, hram, ?_, hm, hv, ?_, ?_⟩
  · rw [mute_quieten, hs]
    exact hd
  · intro r hr
    rw [hd]
    refine readRegister_unmute _ ?_
    rw [hm]
    exact hr
  · intro v
    rw [hd]
    exact modulator_remix ..

end Dsp

end SoundUnit
