import SoundUnit.Proofs.Voice.BlockStream
import SoundUnit.Proofs.Voice.Resampler
import SoundUnit.Proofs.Voice.Stages

namespace SoundUnit

namespace Playback

def Decodes (p : Playback) : Prop :=
  1 ≤ p.age ∧ p.age ≤ 3 ∨ 5 ≤ p.age ∧ (p.tape.samples.length : Int) ≤ p.position / 4096 + 8

instance (p : Playback) : Decidable p.Decodes := inferInstanceAs (Decidable (_ ∨ _))

def event (p : Playback) (i : Input) : SampleStream.Event :=
  if p.Decodes then (p.tape.decodeGroup i.ram i.loop).2 else .none

variable {p : Playback} {i : Input}

theorem not_decodes_of_age_zero (h : p.age = 0) : ¬ p.Decodes := by
  rintro (⟨h', -⟩ | ⟨h', -⟩) <;> omega

theorem tape_clock (h : 1 ≤ p.age) :
    (p.clock i).tape = if p.Decodes then (p.tape.decodeGroup i.ram i.loop).1 else p.tape := by
  rcases Nat.lt_or_ge p.age 5 with hlt | hge
  · rcases Nat.lt_or_eq_of_le (Nat.le_of_lt_succ hlt) with hlt | he
    · rw [clock_of_starting (by omega) (by omega), if_pos (.inl ⟨h, by omega⟩)]
    · have hn : ¬ p.Decodes := by
        rintro (⟨-, h₁⟩ | ⟨h₂, -⟩) <;> omega
      rw [if_neg hn, clock, if_neg (by omega), if_neg (by omega), if_pos he]
  · rw [clock_of_playing hge, fetch]
    by_cases hl : (p.tape.samples.length : Int) ≤ p.position / 4096 + 8
    · rw [if_pos hl, if_pos (.inr ⟨hge, hl⟩)]
    · have hn : ¬ p.Decodes := by
        rintro (⟨-, h₁⟩ | ⟨-, h₂⟩)
        · omega
        · exact hl h₂
      rw [if_neg hl, if_neg hn]

theorem position_clock_of_starting (h : p.age < 5) : (p.clock i).position = p.position := by
  unfold clock
  split
  · rfl
  · split
    · rfl
    · split
      · rfl
      · omega

theorem position_clock_of_playing (h : 5 ≤ p.age) : (p.clock i).position = p.position + p.cutStep i.step := by
  rw [clock_of_playing h]

theorem reads_clock {src : BlockSource} {past : List Int16} {k : Nat} (hr : p.tape.Reads src past (4 * k))
    (hp : p.tape.Place src k) (hi : i.ram = src.ram) (hloop : src.Closes (k / 4) true → i.loop = src.loops k)
    (hd : p.Decodes) :
    (p.event i ≠ .finished → (p.clock i).tape.Reads src past (4 * (k + 1)) ∧ (p.clock i).tape.Place src (k + 1)) ∧
      src.Tells k (p.event i) := by
  have hage : 1 ≤ p.age := by
    rcases hd with ⟨h, -⟩ | ⟨h, -⟩ <;> omega
  rw [event, if_pos hd, tape_clock hage, if_pos hd, hi]
  exact Tape.decodeGroup_reads hr hp hloop rfl

end Playback

namespace Voice

section Events

variable {v : Voice} (ram : Ram) (tick : Tick)

theorem ne_off_of_before_release {s : Stage} (h : s.rank < Stage.release.rank) : s ≠ .off := by
  rintro rfl
  exact absurd h (by decide)

/-- Decoding, if there is any, tells what the event is and stops the voice with the last one. -/
theorem decode_event (h : v.envelope.stage ≠ .off) (directory : UInt16) (c : Prop) [Decidable c] :
    let event := if c then (v.stream.decodeGroup ram (v.loopAddress ram directory)).2 else .none
    let r := if c then v.decode ram directory else (v, false)
    r.2 = decide (event = .looped ∨ event = .ended) ∧ (r.1.envelope.stage = .off ↔ event = .finished) := by
  intro event r
  by_cases hc : c
  · have he : event = _ := if_pos hc
    have hr : r = _ := if_pos hc
    rw [hr, decode_eq, ← he]
    refine ⟨rfl, ?_⟩
    by_cases hf : event = .finished
    · rw [if_pos hf]
      exact iff_of_true rfl hf
    · rw [if_neg hf]
      exact iff_of_false h hf
  · have he : event = .none := if_neg hc
    have hr : r = (v, false) := if_neg hc
    rw [hr, he]
    exact ⟨rfl, iff_of_false h nofun⟩

theorem counting_event (hd : 0 < v.startDelay) (hk : v.startDelay ≠ keyOnDelay) (hon : v.envelope.stage ≠ .off)
    {event : SampleStream.Event}
    (he : event = if 1 ≤ v.startDelay - 1 ∧ v.startDelay - 1 ≤ 3 then
      (v.stream.decodeGroup ram (v.loopAddress ram tick.directory)).2 else .none) :
    (v.clock ram tick).2 = decide (event = .looped ∨ event = .ended) ∧
      ((v.clock ram tick).1.envelope.stage = .off ↔ event = .finished) := by
  rw [clock_of_counting v ram tick hd hk, he]
  exact decode_event (v := v.countDown) ram hon tick.directory (1 ≤ v.startDelay - 1 ∧ v.startDelay - 1 ≤ 3)

theorem playing_event (hd : v.startDelay = 0) (ha : v.envelope.stage.rank < Stage.release.rank)
    {event : SampleStream.Event}
    (he : event = if groupLength ≤ v.counter then
      (v.stream.decodeGroup ram (v.loopAddress ram tick.directory)).2 else .none) :
    (v.clock ram tick).2 = decide (event = .looped ∨ event = .ended) ∧
      ((v.clock ram tick).1.envelope.stage = .off ↔ event = .finished) := by
  have hon : (v.sounded tick).envelope.stage ≠ .off :=
    ne_off_of_before_release (v.envelope.clock_before_release ha tick.counter)
  have hm := congrArg Envelope.stage (envelope_move ((v.sounded tick).refill ram tick.directory).1 tick.modulator)
  obtain ⟨hr, hs⟩ := decode_event (v := v.sounded tick) ram hon tick.directory (groupLength ≤ v.counter)
  rw [clock_of_playing v ram tick (not_starting hd) (ne_off_of_before_release ha), play_eq, advance_eq, he]
  exact ⟨hr, (Iff.of_eq (congrArg (· = Stage.off) hm)).trans hs⟩

/-- The voice tells what its resampler is told by the decoder, and without a key-off nothing else stops it. -/
theorem Follows.clock_event {p : Playback} (h : v.Follows p) (ha : v.envelope.stage.rank < Stage.release.rank) :
    (v.clock ram tick).2 =
        decide (p.event (v.input ram tick) = .looped ∨ p.event (v.input ram tick) = .ended) ∧
      ((v.clock ram tick).1.envelope.stage = .off ↔ p.event (v.input ram tick) = .finished) := by
  have hon := ne_off_of_before_release ha
  cases h with
  | keyed hd =>
    have hn : ¬ v.playback.Decodes := Playback.not_decodes_of_age_zero rfl
    have hs : (v.restarted ram tick).countDown.hushed.envelope.stage = v.envelope.stage := by
      change (v.restarted ram tick).envelope.stage = v.envelope.stage
      rw [envelope_restarted]
    rw [Playback.event, if_neg hn, clock_of_keyed hd, hs]
    exact ⟨rfl, iff_of_false hon nofun⟩
  | @starting t n hn hd ht hl =>
    obtain ⟨-, hev⟩ := ht.decodeGroup ram (v.loopAddress ram tick.directory)
    have hc : ∀ n < 4, 0 < UInt8.ofNat (4 - n) ∧ UInt8.ofNat (4 - n) ≠ keyOnDelay ∧
        (1 ≤ UInt8.ofNat (4 - n) - 1 ∧ UInt8.ofNat (4 - n) - 1 ≤ 3 ↔ n + 1 ≤ 3) := by decide
    obtain ⟨hpos, hne, hcount⟩ := hc n hn
    rw [← hd] at hpos hne hcount
    have hdec : Playback.Decodes { tape := t, age := n + 1 } ↔ n + 1 ≤ 3 := by
      refine ⟨?_, fun h ↦ .inl ⟨Nat.succ_pos n, h⟩⟩
      rintro (⟨-, h⟩ | ⟨h, -⟩)
      · exact h
      · change 5 ≤ n + 1 at h
        omega
    refine counting_event ram tick hpos hne hon ?_
    simp only [Playback.event, hdec, hcount, hev]
    rfl
  | @playing t age n position hd ht hage hl hc hp =>
    obtain ⟨-, hev⟩ := ht.decodeGroup ram (v.loopAddress ram tick.directory)
    have hdec : Playback.Decodes { tape := t, age, position } ↔ groupLength ≤ v.counter := by
      rw [groupLength_le_iff]
      constructor
      · rintro (⟨-, h⟩ | ⟨-, h⟩)
        · change age ≤ 3 at h
          omega
        · change (t.samples.length : Int) ≤ position / 4096 + 8 at h
          omega
      · intro h
        refine .inr ⟨hage, ?_⟩
        change (t.samples.length : Int) ≤ position / 4096 + 8
        omega
    refine playing_event ram tick hd ha ?_
    simp only [Playback.event, hdec, hev]
    rfl

end Events

end Voice

end SoundUnit
