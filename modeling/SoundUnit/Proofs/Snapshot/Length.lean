import SoundUnit.Snapshot.Basic

namespace SoundUnit

namespace Format

variable {α β : Type} {f : Format α} {g : Format β} {n n' : α → Nat} {k : β → Nat}

/-- A value `a` takes `n a` bytes. -/
def Takes (f : Format α) (n : α → Nat) : Prop := ∀ a, (f.write a).length = n a

namespace Takes

theorem congr (hf : f.Takes n) (h : ∀ a, n a = n' a) : f.Takes n' := fun a ↦ (hf a).trans (h a)

theorem byte : Format.byte.Takes fun _ ↦ 1 := fun _ ↦ rfl

theorem nat (k : Nat) : (Format.nat k).Takes fun _ ↦ k := by
  intro v
  change (writeNat k v).length = k
  induction k generalizing v with
  | zero => rfl
  | succ k ih => rw [writeNat, List.length_cons, ih]

theorem map {decode : α → β} {encode : β → α} (hf : f.Takes n) :
    (f.map decode encode).Takes fun b ↦ n (encode b) := fun b ↦ hf (encode b)

theorem filterMap {decode : α → Except SnapshotFault β} {encode : β → α} (hf : f.Takes n) :
    (f.filterMap decode encode).Takes fun b ↦ n (encode b) := fun b ↦ hf (encode b)

theorem seq (hf : f.Takes n) (hg : g.Takes k) : (f.seq g).Takes fun p ↦ n p.1 + k p.2 := by
  intro p
  change (f.write p.1 ++ g.write p.2).length = n p.1 + k p.2
  rw [List.length_append, hf, hg]

theorem flatMap {w : Nat} (hf : f.Takes fun _ ↦ w) (items : List α) :
    (items.flatMap f.write).length = items.length * w := by
  have h : List.length ∘ f.write = fun _ ↦ w := funext hf
  rw [List.length_flatMap, ← Function.comp_def, h, List.map_const', List.sum_replicate_nat]

theorem vector {w : Nat} (hf : f.Takes fun _ ↦ w) (k : Nat) : (f.vector k).Takes fun _ ↦ k * w := by
  intro items
  change (items.toList.flatMap f.write).length = _
  rw [hf.flatMap, Vector.length_toList]

theorem array {w : Nat} (hf : f.Takes fun _ ↦ w) : f.array.Takes fun items ↦ 8 + items.size * w := by
  intro items
  change (writeNat 8 items.size ++ items.toList.flatMap f.write).length = _
  rw [List.length_append, hf.flatMap, Array.length_toList]
  exact congrArg (· + _) (nat 8 _)

theorem bytes : Format.bytes.Takes fun data ↦ 8 + data.size := by
  intro data
  change (writeNat 8 data.size ++ data.data.toList).length = _
  rw [List.length_append, Array.length_toList]
  exact congrArg (· + _) (nat 8 _)

theorem bool : Format.bool.Takes fun _ ↦ 1 := byte.filterMap

theorem option (hf : f.Takes n) : f.option.Takes fun o ↦ 1 + o.elim 0 n := by
  intro o
  cases o with
  | none => rfl
  | some a => exact (congrArg (· + 1) (hf a)).trans (Nat.add_comm ..)

end Takes

theorem word_takes : word.Takes fun _ ↦ 2 := (Takes.nat 2).map

theorem signedWord_takes : signedWord.Takes fun _ ↦ 2 := word_takes.map

theorem stereo_takes {w : Nat} (hf : f.Takes fun _ ↦ w) : f.stereo.Takes fun _ ↦ w + w := (hf.seq hf).map

theorem frame_takes : frame.Takes fun _ ↦ 4 := stereo_takes signedWord_takes

theorem registers_takes : registers.Takes fun _ ↦ 8 :=
  (Takes.byte.seq <| Takes.byte.seq <| Takes.byte.seq <| Takes.byte.seq <| word_takes.seq <|
    Takes.byte.seq Takes.bool).map

theorem timer_takes : timer.Takes fun _ ↦ 20 :=
  (Takes.byte.seq <| Takes.byte.seq <| Takes.byte.seq <| Takes.bool.seq <| (Takes.nat 8).seq (Takes.nat 8)).map

theorem stage_takes : stage.Takes fun _ ↦ 4 := (Takes.nat 4).filterMap

theorem signedLong_takes : signedLong.Takes fun _ ↦ 4 := (Takes.nat 4).map

theorem envelope_takes : envelope.Takes fun _ ↦ 13 :=
  (word_takes.seq <| Takes.byte.seq <| stage_takes.seq <| signedWord_takes.seq signedLong_takes).map

theorem stream_takes : stream.Takes fun _ ↦ 37 :=
  (word_takes.seq <| word_takes.seq <| (signedWord_takes.vector 12).seq <| (Takes.nat 8).seq Takes.byte).map

theorem voice_takes : voice.Takes fun _ ↦ 65 :=
  ((stereo_takes Takes.byte.map).seq <| word_takes.seq <| Takes.byte.seq <| Takes.byte.seq <| Takes.byte.seq <|
    Takes.byte.seq <| Takes.byte.seq <| Takes.byte.seq <| envelope_takes.seq <| stream_takes.seq <|
    word_takes.seq <| Takes.byte.seq signedWord_takes).map

theorem echo_takes : echo.Takes fun _ ↦ 58 :=
  ((stereo_takes Takes.byte.map).seq <| Takes.byte.map.seq <| Takes.byte.seq <| Takes.byte.seq <|
    Takes.byte.seq <| (Takes.byte.map.vector 8).seq <| word_takes.seq <| word_takes.seq <|
    (frame_takes.vector 8).seq (Takes.nat 8)).map

theorem dsp_takes : dsp.Takes fun d ↦ 610 + 4 * d.frames.size := by
  refine ((Takes.nat 8).seq <| frame_takes.array.seq <| (stereo_takes Takes.byte.map).seq <| Takes.byte.seq <|
    Takes.byte.seq <| Takes.byte.seq <| Takes.byte.seq <| Takes.byte.seq <| Takes.byte.seq <| Takes.byte.seq <|
    Takes.byte.seq <| Takes.byte.seq <| word_takes.seq <| word_takes.seq <| Takes.byte.seq <|
    echo_takes.seq (voice_takes.vector 8)).map.congr fun d ↦ ?_
  dsimp only
  omega

end Format

theorem SnapshotContents.format_takes : format.Takes fun c ↦
    737 + c.ram.size + c.bootRom.size + 4 * c.dsp.frames.size + c.ramImage.elim 0 (8 + ·.size) +
      4 * c.output.size := by
  have bytes := Format.Takes.bytes
  have byte := Format.Takes.byte
  have count := Format.Takes.nat 8
  refine (Format.registers_takes.seq <| bytes.seq <| bytes.seq <| byte.seq <| byte.seq <| Format.dsp_takes.seq <|
    (byte.vector 4).seq <| (byte.vector 4).seq <| (Format.timer_takes.vector 3).seq <| bytes.option.seq <|
    count.seq <| count.seq <| count.seq Format.frame_takes.array).map.congr fun c ↦ ?_
  dsimp only
  omega

theorem Snapshot.length_encode (m : Machine) :
    (encode m).length = 66343 + 4 * m.core.bus.dsp.frames.size + m.ramImage.elim 0 (8 + ·.size) +
      4 * m.output.size := by
  have hram : (SnapshotContents.ofMachine m).ram.size = 65536 := m.core.bus.ram.size_eq
  have hrom : (SnapshotContents.ofMachine m).bootRom.size = 64 := m.core.bus.bootRom.size_eq
  have hh : header.length = 6 := rfl
  have hc := SnapshotContents.format_takes (.ofMachine m)
  simp only [hram, hrom] at hc
  rw [encode, List.length_append, hc, hh]
  change 6 + (737 + 65536 + 64 + 4 * m.core.bus.dsp.frames.size + m.ramImage.elim 0 (8 + ·.size) +
    4 * m.output.size) = _
  omega

end SoundUnit
