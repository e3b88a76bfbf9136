import SoundUnit.Proofs.Dsp.Production
import SoundUnit.Proofs.Voice.Equations

namespace SoundUnit

theorem get_setIfInBounds {α : Type} {n : Nat} (xs : Vector α n) (i j : Fin n) (x : α) :
    (xs.setIfInBounds i x).get j = if i = j then x else xs.get j := by
  simp only [Fin.ext_iff]
  exact Vector.getElem_setIfInBounds j.isLt

theorem mem_allVoices : ∀ v : Fin 8, v ∈ allVoices := by decide

theorem nodup_allVoices : allVoices.Nodup := by decide

namespace Bit

variable (a b : UInt8) (i : Fin 8)

theorem test_or : test (a ||| b) i = (test a i || test b i) := by
  simp only [test_eq_testBit, UInt8.toNat_or, Nat.testBit_or]

theorem test_and : test (a &&& b) i = (test a i && test b i) := by
  simp only [test_eq_testBit, UInt8.toNat_and, Nat.testBit_and]

theorem test_complement : test (~~~a) i = !test a i := by
  have ha := a.toNat_lt
  have hn : (~~~a).toNat = 2 ^ 8 - (a.toNat + 1) := by
    rw [UInt8.toNat_not]
    change 256 - 1 - a.toNat = 256 - (a.toNat + 1)
    omega
  rw [test_eq_testBit, test_eq_testBit, hn, Nat.testBit_two_pow_sub_succ ha]
  simp only [i.isLt, decide_true, Bool.true_and]

theorem test_zero : test 0 i = false := by
  revert i
  decide

end Bit

namespace Dsp

variable (d : Dsp) (ram : Ram) (v i : Fin 8)

structure Keys where
  on : UInt8
  off : UInt8
  flags : UInt8
  pending : UInt8

def keys (d : Dsp) : Keys := ⟨d.keyOn, d.keyOff, d.flags, d.pendingKeyOn⟩

def withVoice (voice : Voice) : Dsp := { d with voices := d.voices.setIfInBounds v voice }

/-- What the key registers and a soft reset do to voice `v` before a sample. -/
def keyed (voice : Voice) : Voice :=
  if d.softReset then voice.stop else voice.applyKeys (Bit.test d.keyOff v) (Bit.test d.pendingKeyOn v)

theorem keyed_cases (voice : Voice) :
    (d.softReset = true ∧ d.keyed v voice = voice.stop) ∨
      (d.softReset = false ∧ Bit.test d.pendingKeyOn v = true ∧ ∃ u : Voice, d.keyed v voice = u.keyOn) ∨
      (d.softReset = false ∧ Bit.test d.pendingKeyOn v = false ∧
        d.keyed v voice = if Bit.test d.keyOff v then voice.keyOff else voice) := by
  unfold keyed Voice.applyKeys
  cases d.softReset with
  | true => exact .inl ⟨rfl, rfl⟩
  | false =>
    cases Bit.test d.pendingKeyOn v with
    | true => exact .inr (.inl ⟨rfl, rfl, _, rfl⟩)
    | false => exact .inr (.inr ⟨rfl, rfl, rfl⟩)

theorem write_voice (addr data : UInt8) :
    (d.write addr data).voices.get v = d.voices.get v ∨
      ∃ r, (d.write addr data).voices.get v = (d.voices.get v).writeRegister data r := by
  unfold write
  split
  · cases DspRegister.ofAddress addr with
    | voice i r =>
      have hg := get_setIfInBounds d.voices i v ((d.voices.get i).writeRegister data r)
      split at hg
      next he => exact .inr ⟨r, hg.trans (he ▸ rfl)⟩
      next => exact .inl hg
    | tap i => exact .inl rfl
    | global r => cases r <;> exact .inl rfl
  · exact .inl rfl

theorem applyKeys_of_softReset {d : Dsp} (h : d.softReset) :
    d.applyKeys = { d with voices := d.voices.map Voice.stop, pendingKeyOn := 0 } := if_pos h

theorem applyKeys_of_running {d : Dsp} (h : ¬ d.softReset) :
    d.applyKeys =
      { d with
        voices := Vector.ofFn fun v ↦
          (d.voices.get v).applyKeys (Bit.test d.keyOff v) (Bit.test d.pendingKeyOn v)
        ended := d.ended &&& ~~~d.pendingKeyOn
        pendingKeyOn := 0 } := if_neg h

theorem get_applyKeys : d.applyKeys.voices.get v = d.keyed v (d.voices.get v) := by
  by_cases h : d.softReset
  · rw [applyKeys_of_softReset h, keyed, if_pos h]
    exact Vector.getElem_map ..
  · rw [applyKeys_of_running h, keyed, if_neg h]
    exact Vector.getElem_ofFn ..

theorem test_ended_applyKeys :
    Bit.test d.applyKeys.ended v = (Bit.test d.ended v && (d.softReset || !Bit.test d.pendingKeyOn v)) := by
  by_cases h : d.softReset
  · rw [applyKeys_of_softReset h]
    simp only [h, Bool.true_or, Bool.and_true]
  · rw [applyKeys_of_running h]
    simp only [h, Bool.false_or, Bit.test_and, Bit.test_complement]

theorem get_clockVoice :
    (clockVoice ram d i).voices.get v =
      if i = v then ((d.voices.get i).clock ram (d.voiceTick i)).1 else d.voices.get v :=
  get_setIfInBounds ..

theorem test_ended_clockVoice :
    Bit.test (clockVoice ram d i).ended v =
      (Bit.test d.ended v || decide (i = v) && ((d.voices.get i).clock ram (d.voiceTick i)).2) := by
  change Bit.test (if ((d.voices.get i).clock ram (d.voiceTick i)).2 then d.ended ||| Bit.mask i else d.ended) v = _
  cases ((d.voices.get i).clock ram (d.voiceTick i)).2
  · simp
  · simp [Bit.test_or, Bit.test_mask]

theorem foldl_clockVoice_of_not_mem {l : List (Fin 8)} (h : v ∉ l) :
    (l.foldl (clockVoice ram) d).voices.get v = d.voices.get v ∧
      Bit.test (l.foldl (clockVoice ram) d).ended v = Bit.test d.ended v := by
  induction l generalizing d with
  | nil => exact ⟨rfl, rfl⟩
  | cons i l ih =>
    obtain ⟨hi, hl⟩ := not_or.1 (mt List.mem_cons.2 h)
    obtain ⟨hv, he⟩ := ih (clockVoice ram d i) hl
    have hi' : i ≠ v := Ne.symm hi
    constructor
    · rw [List.foldl_cons, hv, get_clockVoice, if_neg hi']
    · rw [List.foldl_cons, he, test_ended_clockVoice]
      simp [hi']

/-- Each voice moves on once, whichever ones move before and after it. -/
theorem foldl_clockVoice_of_mem {l : List (Fin 8)} (hl : l.Nodup) (h : v ∈ l) :
    ∃ tick, (l.foldl (clockVoice ram) d).voices.get v = ((d.voices.get v).clock ram tick).1 ∧
      Bit.test (l.foldl (clockVoice ram) d).ended v =
        (Bit.test d.ended v || ((d.voices.get v).clock ram tick).2) := by
  induction l generalizing d with
  | nil => exact absurd h List.not_mem_nil
  | cons i l ih =>
    obtain ⟨hi, hl⟩ := List.nodup_cons.1 hl
    rcases List.mem_cons.1 h with rfl | hm
    · obtain ⟨hv, he⟩ := foldl_clockVoice_of_not_mem (clockVoice ram d v) ram v hi
      refine ⟨d.voiceTick v, ?_, ?_⟩
      · rw [List.foldl_cons, hv, get_clockVoice, if_pos rfl]
      · rw [List.foldl_cons, he, test_ended_clockVoice]
        simp
    · have hne : i ≠ v := fun e ↦ hi (e ▸ hm)
      obtain ⟨tick, hv, he⟩ := ih (clockVoice ram d i) hl hm
      rw [get_clockVoice, if_neg hne] at hv he
      rw [test_ended_clockVoice] at he
      refine ⟨tick, hv, he.trans ?_⟩
      simp [hne]

theorem clockVoices_voice :
    ∃ tick, (d.clockVoices ram).voices.get v = ((d.voices.get v).clock ram tick).1 ∧
      Bit.test (d.clockVoices ram).ended v = (Bit.test d.ended v || ((d.voices.get v).clock ram tick).2) :=
  foldl_clockVoice_of_mem d ram v nodup_allVoices (mem_allVoices v)

theorem clockVoices_frame : ∃ voices ended, d.clockVoices ram = { d with voices, ended } := by
  unfold clockVoices
  generalize allVoices = l
  induction l generalizing d with
  | nil => exact ⟨d.voices, d.ended, rfl⟩
  | cons i l ih =>
    obtain ⟨voices, ended, h⟩ := ih (clockVoice ram d i)
    exact ⟨voices, ended, h⟩

theorem prepare_frame :
    ∃ counter noise voices ended,
      d.prepare ram = { d with counter, noise, voices, ended, pendingKeyOn := 0 } := by
  obtain ⟨voices, ended, hv⟩ := clockVoices_frame d.stepCounter.stepNoise.applyKeys ram
  rw [prepare, hv]
  by_cases h : d.stepCounter.stepNoise.softReset
  · rw [applyKeys_of_softReset h]
    exact ⟨_, _, voices, ended, rfl⟩
  · rw [applyKeys_of_running h]
    exact ⟨_, _, voices, ended, rfl⟩

theorem voices_after (echo : Echo) (frame : Frame) :
    ((d.withEcho echo).push frame).voices = d.voices ∧ ((d.withEcho echo).push frame).ended = d.ended := ⟨rfl, rfl⟩

theorem keys_after (echo : Echo) (frame : Frame) :
    ((d.withEcho echo).push frame).keys = d.keys := rfl

theorem tick_frame : ∃ echo frame, (d.tick ram).1 = ((d.prepare ram).withEcho echo).push frame := by
  rw [tick_eq, generate_eq_finish]
  generalize d.prepare ram = p
  exact ⟨_, _, rfl⟩

/-- What a tick does to a voice: the keys act on it and it moves on, and that may set its bit among the ended ones. -/
theorem tick_voice :
    ∃ tick, (d.tick ram).1.voices.get v = ((d.keyed v (d.voices.get v)).clock ram tick).1 ∧
      Bit.test (d.tick ram).1.ended v =
        (Bit.test d.ended v && (d.softReset || !Bit.test d.pendingKeyOn v) ||
          ((d.keyed v (d.voices.get v)).clock ram tick).2) := by
  have hk : d.stepCounter.stepNoise.keyed v (d.stepCounter.stepNoise.voices.get v) = d.keyed v (d.voices.get v) := rfl
  have hr : d.stepCounter.stepNoise.softReset = d.softReset := rfl
  have hp : d.stepCounter.stepNoise.pendingKeyOn = d.pendingKeyOn := rfl
  have hd : d.stepCounter.stepNoise.ended = d.ended := rfl
  obtain ⟨tick, hv, he⟩ := d.stepCounter.stepNoise.applyKeys.clockVoices_voice ram v
  obtain ⟨echo, frame, hf⟩ := d.tick_frame ram
  obtain ⟨hv', he'⟩ := (d.prepare ram).voices_after echo frame
  rw [get_applyKeys, hk] at hv he
  rw [test_ended_applyKeys, hd, hr, hp] at he
  refine ⟨tick, ?_, ?_⟩
  · rw [hf, hv', prepare, hv]
  · rw [hf, he', prepare, he]

theorem keys_tick : (d.tick ram).1.keys = { d.keys with pending := 0 } := by
  obtain ⟨counter, noise, voices, ended, hp⟩ := d.prepare_frame ram
  obtain ⟨echo, frame, hf⟩ := d.tick_frame ram
  rw [hf, keys_after, hp]
  rfl

theorem keyOn_eq : d.keyOn = d.keys.on := rfl

theorem pendingKeyOn_eq : d.pendingKeyOn = d.keys.pending := rfl

theorem keyOn_tick : (d.tick ram).1.keyOn = d.keyOn := by
  rw [keyOn_eq, keys_tick, keyOn_eq]

theorem flags_eq : d.flags = d.keys.flags := rfl

theorem flags_tick : (d.tick ram).1.flags = d.flags := by
  rw [flags_eq, keys_tick, flags_eq]

theorem pendingKeyOn_tick : (d.tick ram).1.pendingKeyOn = 0 := by
  rw [pendingKeyOn_eq, keys_tick]

end Dsp

end SoundUnit
