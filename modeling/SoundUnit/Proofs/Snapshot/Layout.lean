import SoundUnit.Proofs.Snapshot.Exact
import SoundUnit.Snapshot.Layout

namespace SoundUnit

abbrev countLimit : Nat := 256 ^ 8

def Timer.Fits (t : Timer) : Prop := t.period < countLimit ∧ t.elapsed < countLimit

def SampleStream.Fits (s : SampleStream) : Prop := s.position < countLimit

def Voice.Fits (v : Voice) : Prop := v.stream.Fits

def Echo.Fits (e : Echo) : Prop := e.newest < countLimit

structure Dsp.Fits (d : Dsp) : Prop where
  elapsed : d.elapsed < countLimit
  frames : d.frames.size < countLimit
  echo : d.echo.Fits
  voices : ∀ v ∈ d.voices, v.Fits

structure SnapshotContents.Fits (c : SnapshotContents) : Prop where
  ram : c.ram.size < countLimit
  bootRom : c.bootRom.size < countLimit
  dsp : c.dsp.Fits
  timers : ∀ t ∈ c.timers, t.Fits
  ramImage : ∀ image ∈ c.ramImage, image.size < countLimit
  executed : c.executed < countLimit
  target : c.target < countLimit
  released : c.released < countLimit
  output : c.output.size < countLimit

namespace Format

theorem word_exact : Exact word fun _ ↦ True := by
  refine ((Exact.nat 2).map (fun n hn ↦ ?_) fun w _ ↦ UInt16.ofNat_toNat).congr fun w ↦ ?_
  · rw [UInt16.toNat_ofNat']
    exact Nat.mod_eq_of_lt hn
  · exact iff_true_intro w.toNat_lt

theorem signedByte_exact : Exact signedByte fun _ ↦ True :=
  Exact.byte.map (fun b _ ↦ b.toUInt8_toInt8) fun b _ ↦ b.toInt8_toUInt8

theorem signedWord_exact : Exact signedWord fun _ ↦ True :=
  word_exact.map (fun w _ ↦ w.toUInt16_toInt16) fun w _ ↦ w.toInt16_toUInt16

theorem signedLong_exact : Exact signedLong fun _ ↦ True := by
  refine ((Exact.nat 4).map (fun n hn ↦ ?_) fun w _ ↦ ?_).congr fun w ↦ ?_
  · rw [UInt32.toUInt32_toInt32, UInt32.toNat_ofNat']
    exact Nat.mod_eq_of_lt hn
  · rw [UInt32.ofNat_toNat, Int32.toInt32_toUInt32]
  · exact iff_true_intro w.toUInt32.toNat_lt

theorem stereo_exact {α : Type} {f : Format α} (hf : Exact f fun _ ↦ True) : Exact f.stereo fun _ ↦ True :=
  ((hf.seq hf).map (fun _ _ ↦ rfl) fun _ _ ↦ rfl).congr fun _ ↦ by simp

theorem frame_exact : Exact frame fun _ ↦ True := stereo_exact signedWord_exact

theorem registers_exact : Exact registers fun _ ↦ True := by
  refine ((Exact.byte.seq <| Exact.byte.seq <| Exact.byte.seq <| Exact.byte.seq <| word_exact.seq <|
    Exact.byte.seq Exact.bool).map (fun p _ ↦ ?_) fun r _ ↦ ?_).congr fun _ ↦ by simp
  · simp only [Status.toByte_ofByte]
  · simp only [Status.ofByte_toByte]

theorem timer_exact : Exact timer Timer.Fits :=
  ((Exact.byte.seq <| Exact.byte.seq <| Exact.byte.seq <| Exact.bool.seq <|
    (Exact.nat 8).seq (Exact.nat 8)).map (fun _ _ ↦ rfl) fun _ _ ↦ rfl).congr fun _ ↦ by
      simp only [true_and, Timer.Fits]

theorem stageNumber_stages : ∀ i : Fin 5, stageNumber stages[i] = i := by decide

theorem stages_stageNumber : ∀ s : Stage, ∃ h : stageNumber s < 5, stages[stageNumber s] = s
  | .attack | .decay | .sustain | .release | .off => ⟨by decide, rfl⟩

theorem stage_exact : Exact stage fun _ ↦ True := by
  refine ((Exact.nat 4).filterMap fun n s hn ↦ ?_).congr fun s ↦ iff_true_intro ?_
  · obtain ⟨hs, he⟩ := stages_stageNumber s
    constructor
    · intro h
      split at h
      next hlt =>
        cases h
        exact (stageNumber_stages ⟨n, hlt⟩).symm
      next => cases h
    · intro h
      obtain rfl := h
      rw [dif_pos hs, he]
  · cases s <;> decide

theorem envelope_exact : Exact envelope fun _ ↦ True :=
  ((word_exact.seq <| Exact.byte.seq <| stage_exact.seq <| signedWord_exact.seq signedLong_exact).map
    (fun _ _ ↦ rfl) fun _ _ ↦ rfl).congr fun _ ↦ by simp

theorem stream_exact : Exact stream SampleStream.Fits :=
  ((word_exact.seq <| word_exact.seq <| (signedWord_exact.vector 12).seq <| (Exact.nat 8).seq Exact.byte).map
    (fun _ _ ↦ rfl) fun _ _ ↦ rfl).congr fun _ ↦ by
      simp only [true_and, and_true, implies_true, SampleStream.Fits]

theorem voice_exact : Exact voice Voice.Fits :=
  (((stereo_exact signedByte_exact).seq <| word_exact.seq <| Exact.byte.seq <| Exact.byte.seq <|
    Exact.byte.seq <| Exact.byte.seq <| Exact.byte.seq <| Exact.byte.seq <| envelope_exact.seq <|
    stream_exact.seq <| word_exact.seq <| Exact.byte.seq signedWord_exact).map
    (fun _ _ ↦ rfl) fun _ _ ↦ rfl).congr fun _ ↦ by simp only [true_and, and_true, Voice.Fits]

theorem echo_exact : Exact echo Echo.Fits :=
  (((stereo_exact signedByte_exact).seq <| signedByte_exact.seq <| Exact.byte.seq <| Exact.byte.seq <|
    Exact.byte.seq <| (signedByte_exact.vector 8).seq <| word_exact.seq <| word_exact.seq <|
    (frame_exact.vector 8).seq (Exact.nat 8)).map
    (fun _ _ ↦ rfl) fun _ _ ↦ rfl).congr fun _ ↦ by
      simp only [true_and, implies_true, Echo.Fits]

theorem dsp_exact : Exact dsp Dsp.Fits := by
  refine (((Exact.nat 8).seq <| frame_exact.array.seq <| (stereo_exact signedByte_exact).seq <|
    Exact.byte.seq <| Exact.byte.seq <| Exact.byte.seq <| Exact.byte.seq <| Exact.byte.seq <| Exact.byte.seq <|
    Exact.byte.seq <| Exact.byte.seq <| Exact.byte.seq <| word_exact.seq <| word_exact.seq <| Exact.byte.seq <|
    echo_exact.seq (voice_exact.vector 8)).map (fun _ _ ↦ rfl) fun _ _ ↦ rfl).congr fun d ↦ ?_
  simp only [true_and, implies_true, and_true]
  exact ⟨fun ⟨he, hf, hc, hv⟩ ↦ ⟨he, hf, hc, hv⟩, fun ⟨he, hf, hc, hv⟩ ↦ ⟨he, hf, hc, hv⟩⟩

end Format

namespace SnapshotContents

theorem format_exact : Format.Exact format Fits := by
  have bytes := Format.Exact.bytes
  have count := Format.Exact.nat 8
  refine ((Format.registers_exact.seq <| bytes.seq <| bytes.seq <| Format.Exact.byte.seq <|
    Format.Exact.byte.seq <| Format.dsp_exact.seq <| (Format.Exact.byte.vector 4).seq <|
    (Format.Exact.byte.vector 4).seq <| (Format.timer_exact.vector 3).seq <| bytes.option.seq <| count.seq <|
    count.seq <| count.seq Format.frame_exact.array).map (fun _ _ ↦ rfl) fun _ _ ↦ rfl).congr fun c ↦ ?_
  simp only [true_and, implies_true, and_true]
  exact ⟨fun ⟨hr, hb, hd, ht, hi, he, ha, hs, ho⟩ ↦ ⟨hr, hb, hd, ht, hi, he, ha, hs, ho⟩,
    fun ⟨hr, hb, hd, ht, hi, he, ha, hs, ho⟩ ↦ ⟨hr, hb, hd, ht, hi, he, ha, hs, ho⟩⟩

end SnapshotContents

end SoundUnit
