import SoundUnit.Proofs.Checked.Arithmetic
import SoundUnit.Proofs.Voice.Equations

namespace SoundUnit

/-- The order in which an envelope goes through its stages. -/
def Stage.rank : Stage → Nat
  | .attack => 0
  | .decay => 1
  | .sustain => 2
  | .release => 3
  | .off => 4

theorem Stage.rank_le_off (s : Stage) : s.rank ≤ Stage.off.rank := by
  cases s <;> decide

namespace Envelope

variable (e : Envelope)

theorem rank_nextStage (candidate : Int) : e.stage.rank ≤ (e.nextStage candidate).rank := by
  unfold nextStage
  cases e.stage with
  | attack => exact Nat.zero_le _
  | decay =>
    dsimp only
    split <;> decide
  | sustain => exact Nat.le_refl _
  | release => exact Nat.le_refl _
  | off => exact Nat.le_refl _

theorem nextStage_ne_off (h : e.stage ≠ .off) (candidate : Int) : e.nextStage candidate ≠ .off := by
  unfold nextStage
  cases he : e.stage with
  | attack =>
    dsimp only
    split <;> decide
  | decay =>
    dsimp only
    split <;> decide
  | sustain => exact nofun
  | release => exact nofun
  | off => exact absurd he h

theorem nextStage_before_release (h : e.stage.rank < Stage.release.rank) (candidate : Int) :
    (e.nextStage candidate).rank < Stage.release.rank := by
  unfold nextStage
  cases he : e.stage with
  | attack =>
    dsimp only
    split <;> decide
  | decay =>
    dsimp only
    split <;> decide
  | sustain => exact Nat.lt_succ_self _
  | release | off =>
    rw [he] at h
    exact absurd h (by decide)

theorem rank_release : e.stage.rank ≤ e.release.stage.rank := by
  unfold release
  dsimp only
  split
  · exact e.stage.rank_le_off
  · exact Nat.le_refl _

theorem level_of_off_release (h : e.stage ≠ .off) (ho : e.release.stage = .off) : e.release.level = 0 := by
  unfold release at ho ⊢
  dsimp only at ho ⊢
  split at ho
  next hz =>
    rw [hz]
    rfl
  next => exact absurd ho h

theorem rank_clock (counter : UInt16) : e.stage.rank ≤ (e.clock counter).stage.rank := by
  unfold clock
  split
  · exact Nat.le_refl _
  · exact e.rank_release
  · exact e.rank_nextStage _

theorem clock_before_release (h : e.stage.rank < Stage.release.rank) (counter : UInt16) :
    (e.clock counter).stage.rank < Stage.release.rank := by
  unfold clock
  split
  next he =>
    rw [he] at h
    exact absurd h (by decide)
  next he =>
    rw [he] at h
    exact absurd h (by decide)
  next => exact e.nextStage_before_release h _

/-- The level is in range, and zero if the envelope is off. -/
structure Contained : Prop where
  level : e.Valid
  off : e.stage = .off → e.level = 0

variable {e}

theorem Contained.clock (h : e.Contained) (counter : UInt16) : (e.clock counter).Contained := by
  refine ⟨h.level.clock counter, fun ho ↦ ?_⟩
  unfold Envelope.clock at ho ⊢
  split at ho
  next he => exact h.off he
  next he => exact e.level_of_off_release (by rw [he]; decide) ho
  next he _ => exact absurd ho (e.nextStage_ne_off he _)

theorem contained_of_level_zero (h : e.level = 0) : e.Contained := ⟨valid_of_level_zero h, fun _ ↦ h⟩

end Envelope

namespace Voice

section Cases

variable (v : Voice) (ram : Ram) (tick : Tick)

theorem decode_cases (directory : UInt16) :
    ∃ stream, (v.decode ram directory).1 = v.withStream stream ∨
      (v.decode ram directory).1 = (v.withStream stream).stop := by
  refine ⟨(v.stream.decodeGroup ram (v.loopAddress ram directory)).1, ?_⟩
  rw [decode_eq]
  split
  · exact .inr rfl
  · exact .inl rfl

theorem warmUp_cases :
    ∃ stream, (v.warmUp ram tick).1 = v.withStream stream ∨ (v.warmUp ram tick).1 = (v.withStream stream).stop := by
  unfold warmUp
  split
  · exact v.decode_cases ram tick.directory
  · exact ⟨v.stream, .inl rfl⟩

theorem refill_cases (directory : UInt16) :
    ∃ stream, (v.refill ram directory).1 = v.withStream stream ∨
      (v.refill ram directory).1 = (v.withStream stream).stop := by
  unfold refill
  split
  · exact v.decode_cases ram directory
  · exact ⟨v.stream, .inl rfl⟩

theorem envelope_restarted : (v.restarted ram tick).envelope = v.envelope := by
  unfold restarted
  split <;> rfl

theorem startDelay_move (modulator : Option Int16) : (v.move modulator).startDelay = v.startDelay := by
  unfold move
  split <;> rfl

theorem startUp_cases :
    ((v.startUp ram tick).1.startDelay = 0 ∧ (v.startUp ram tick).1.envelope = v.envelope.stop.hold) ∨
      (v.startUp ram tick).1.envelope = v.envelope.hold := by
  rw [startUp_parts, ← v.envelope_restarted ram tick]
  obtain ⟨stream, hs | hs⟩ := (v.restarted ram tick).countDown.warmUp_cases ram tick
  · rw [hs]
    exact .inr rfl
  · rw [hs]
    exact .inl ⟨rfl, rfl⟩

theorem play_cases :
    ((v.play ram tick).1.startDelay = 0 ∧ (v.play ram tick).1.envelope = (v.envelope.clock tick.counter).stop) ∨
      ((v.play ram tick).1.startDelay = v.startDelay ∧
        (v.play ram tick).1.envelope = v.envelope.clock tick.counter) := by
  have hd : (v.play ram tick).1.startDelay = ((v.sounded tick).refill ram tick.directory).1.startDelay := by
    rw [play_eq, advance_eq]
    exact startDelay_move _ tick.modulator
  have he : (v.play ram tick).1.envelope = ((v.sounded tick).refill ram tick.directory).1.envelope := by
    rw [play_eq, advance_eq]
    exact envelope_move _ tick.modulator
  rw [hd, he]
  obtain ⟨stream, hs | hs⟩ := (v.sounded tick).refill_cases ram tick.directory
  · rw [hs]
    exact .inr ⟨rfl, rfl⟩
  · rw [hs]
    exact .inl ⟨rfl, rfl⟩

/-- All that a tick can do to the envelope: the voice stops at the end of its sample, or it is still starting, or it
plays. -/
theorem clock_cases {w : Voice} (h : (v.clock ram tick).1 = w) :
    (w.startDelay = 0 ∧ w.envelope.stage = .off ∧ w.envelope.level = 0) ∨
      (v.startDelay ≠ 0 ∧ w.envelope = v.envelope.hold) ∨
      (w.startDelay = 0 ∧ w.envelope = v.envelope.clock tick.counter) := by
  subst h
  by_cases hd : 0 < v.startDelay
  · rw [clock_of_starting v ram tick hd]
    obtain ⟨hs, he⟩ | he := v.startUp_cases ram tick
    · exact .inl ⟨hs, congrArg Envelope.stage he, congrArg Envelope.level he⟩
    · exact .inr (.inl ⟨UInt8.pos_iff_ne_zero.1 hd, he⟩)
  · have hz : v.startDelay = 0 := UInt8.le_zero_iff.1 (UInt8.not_lt.1 hd)
    by_cases ho : v.envelope.stage = .off
    · have hc : v.envelope.clock tick.counter = v.envelope := by
        unfold Envelope.clock
        rw [ho]
      rw [clock_of_off v ram tick hd ho, hc]
      exact .inr (.inr ⟨hz, rfl⟩)
    · rw [clock_of_playing v ram tick hd ho]
      obtain ⟨hs, he⟩ | ⟨hs, he⟩ := v.play_cases ram tick
      · exact .inl ⟨hs, congrArg Envelope.stage he, congrArg Envelope.level he⟩
      · exact .inr (.inr ⟨hs.trans hz, he⟩)

theorem rank_clock : v.envelope.stage.rank ≤ (v.clock ram tick).1.envelope.stage.rank := by
  generalize hw : (v.clock ram tick).1 = w
  obtain ⟨-, ho, -⟩ | ⟨-, he⟩ | ⟨-, he⟩ := v.clock_cases ram tick hw
  · rw [ho]
    exact Stage.rank_le_off _
  · rw [he]
    exact Nat.le_refl _
  · rw [he]
    exact v.envelope.rank_clock _

theorem startDelay_warmUp_le : (v.warmUp ram tick).1.startDelay ≤ v.startDelay := by
  obtain ⟨stream, hs | hs⟩ := v.warmUp_cases ram tick
  · rw [hs]
    exact UInt8.le_refl _
  · rw [hs]
    exact UInt8.zero_le

theorem startDelay_clock_le : (v.clock ram tick).1.startDelay.toNat ≤ v.startDelay.toNat - 1 := by
  by_cases hd : 0 < v.startDelay
  · have hp : (1 : UInt8) ≤ v.startDelay := UInt8.le_iff_toNat_le.2 (UInt8.lt_iff_toNat_lt.1 hd)
    have hw := UInt8.le_iff_toNat_le.1 ((v.restarted ram tick).countDown.startDelay_warmUp_le ram tick)
    have hc : (v.restarted ram tick).countDown.startDelay = v.startDelay - 1 :=
      congrArg (· - 1) (v.startDelay_restarted ram tick)
    rw [hc, UInt8.toNat_sub_of_le _ _ hp] at hw
    rw [clock_of_starting v ram tick hd, startUp_parts]
    exact hw
  · generalize hw : (v.clock ram tick).1 = w
    obtain ⟨h, -, -⟩ | ⟨h, -⟩ | ⟨h, -⟩ := v.clock_cases ram tick hw
    · simp [h]
    · exact absurd (UInt8.pos_iff_ne_zero.2 h) hd
    · simp [h]

end Cases

structure Contained (v : Voice) : Prop where
  envelope : v.envelope.Contained
  starting : v.startDelay ≠ 0 → v.envelope.level = 0 ∧ (v.envelope.stage = .attack ∨ v.envelope.stage = .release)

inductive Action where
  | keyOn
  | keyOff
  | stop
  | write (data : UInt8) (r : VoiceRegister)
  | tick (ram : Ram) (counter directory : UInt16) (noise modulator : Option Int16)

/-- A tick in which the noise is a sample of 16 bits, like the outputs that modulate the pitch. -/
def Tick.sampled (counter directory : UInt16) (noise modulator : Option Int16) : Tick where
  counter := counter
  directory := directory
  noise := noise.map Int16.toInt
  modulator := modulator

theorem Tick.valid_sampled (counter directory : UInt16) (noise modulator : Option Int16) :
    (Tick.sampled counter directory noise modulator).Valid := by
  intro x hx
  obtain ⟨sample, -, rfl⟩ := Option.map_eq_some_iff.1 hx
  exact Checked.int16_bounds sample

def act (v : Voice) : Action → Voice
  | .keyOn => v.keyOn
  | .keyOff => v.keyOff
  | .stop => v.stop
  | .write data r => v.writeRegister data r
  | .tick ram counter directory noise modulator =>
    (v.clock ram (.sampled counter directory noise modulator)).1

def scaled (v : Voice) (noise : Option Int) : Int := noise.getD v.interpolated * v.envelope.level.toInt / 2048

theorem scaled_bounds {v : Voice} (h : v.envelope.Valid) {tick : Tick} (ht : tick.Valid) :
    -32768 ≤ v.scaled tick.noise ∧ v.scaled tick.noise ≤ 32767 := by
  have hl := Envelope.valid_iff.1 h
  have hs := ht.sample_bounds v
  have hp : -67076096 ≤ tick.noise.getD v.interpolated * v.envelope.level.toInt ∧
      tick.noise.getD v.interpolated * v.envelope.level.toInt ≤ 67076096 :=
    Checked.mul_bounds (a := 32768) (b := 2047) (by omega) (by omega)
  unfold scaled
  omega

theorem toInt_output_clock {v : Voice} (h : v.envelope.Valid) (hd : v.startDelay = 0) (ho : v.envelope.stage ≠ .off)
    (ram : Ram) {tick : Tick} (ht : tick.Valid) :
    (v.clock ram tick).1.output.toInt = Sample.even (v.scaled tick.noise) := by
  have hs := scaled_bounds h ht
  rw [clock_of_playing v ram tick (not_starting hd) ho, output_play]
  change (Int16.ofInt (Sample.even (v.scaled tick.noise))).toInt = _
  unfold Sample.even
  exact Int16.toInt_ofInt_of_le (by omega) (by omega)

namespace Contained

theorem initial : Contained {} where
  envelope := Envelope.contained_of_level_zero rfl
  starting h := absurd rfl h

variable {v : Voice}

theorem keyOn (v : Voice) : v.keyOn.Contained where
  envelope := Envelope.contained_of_level_zero rfl
  starting _ := ⟨rfl, .inl rfl⟩

theorem keyOff (h : v.Contained) : v.keyOff.Contained := by
  have hs : v.keyOff.envelope.stage = if v.envelope.stage = .off then .off else .release := rfl
  refine ⟨⟨h.envelope.level, fun ho ↦ ?_⟩, fun hd ↦ ?_⟩
  · rw [hs] at ho
    split at ho
    next hv => exact h.envelope.off hv
    next => exact absurd ho (by decide)
  · obtain ⟨hl, ha | hr⟩ := h.starting hd
    · exact ⟨hl, .inr (hs.trans (by rw [ha]; rfl))⟩
    · exact ⟨hl, .inr (hs.trans (by rw [hr]; rfl))⟩

theorem stop (v : Voice) : v.stop.Contained where
  envelope := Envelope.contained_of_level_zero rfl
  starting h := absurd rfl h

theorem writeRegister (h : v.Contained) (data : UInt8) (r : VoiceRegister) : (v.writeRegister data r).Contained := by
  cases r <;> exact ⟨⟨h.envelope.level, h.envelope.off⟩, h.starting⟩

theorem clock (h : v.Contained) (ram : Ram) (tick : Tick) : (v.clock ram tick).1.Contained := by
  generalize hw : (v.clock ram tick).1 = w
  obtain ⟨hd, -, hl⟩ | ⟨hd, he⟩ | ⟨hd, he⟩ := v.clock_cases ram tick hw
  · exact ⟨Envelope.contained_of_level_zero hl, fun hn ↦ absurd hd hn⟩
  · refine ⟨Envelope.contained_of_level_zero (he ▸ rfl), fun _ ↦ ?_⟩
    rw [he]
    exact ⟨rfl, (h.starting hd).2⟩
  · exact ⟨he ▸ h.envelope.clock tick.counter, fun hn ↦ absurd hd hn⟩

theorem act (h : v.Contained) (a : Action) : (v.act a).Contained := by
  cases a with
  | keyOn => exact keyOn v
  | keyOff => exact h.keyOff
  | stop => exact stop v
  | write data r => exact h.writeRegister data r
  | tick ram counter directory noise modulator => exact h.clock ram _

theorem foldl (h : v.Contained) (actions : List Action) : (actions.foldl Voice.act v).Contained := by
  induction actions generalizing v with
  | nil => exact h
  | cons a actions ih => exact ih (h.act a)

end Contained

theorem rank_act (v : Voice) {a : Action} (ha : a ≠ .keyOn) :
    v.envelope.stage.rank ≤ (v.act a).envelope.stage.rank := by
  cases a with
  | keyOn => exact absurd rfl ha
  | keyOff =>
    change _ ≤ (if v.envelope.stage = .off then Stage.off else Stage.release).rank
    cases v.envelope.stage <;> decide
  | stop => exact Stage.rank_le_off _
  | write data r => exact Nat.le_of_eq (congrArg Stage.rank (v.stage_writeRegister data r).symm)
  | tick ram counter directory noise modulator =>
    exact v.rank_clock ram _

theorem rank_foldl (v : Voice) {actions : List Action} (h : .keyOn ∉ actions) :
    v.envelope.stage.rank ≤ (actions.foldl act v).envelope.stage.rank := by
  induction actions generalizing v with
  | nil => exact Nat.le_refl _
  | cons a actions ih =>
    obtain ⟨ha, has⟩ := not_or.1 (mt List.mem_cons.2 h)
    exact Nat.le_trans (v.rank_act (Ne.symm ha)) (ih (v.act a) has)

/-- Whatever is done to a voice, its level stays in range, it is silent when it is off or has not started, its stage
goes back with a key-on only, and its scaled samples have 16 bits. -/
theorem envelope_contained (before after : List Action) :
    let v := before.foldl act {}
    (0 ≤ v.envelope.level.toInt ∧ v.envelope.level.toInt ≤ 0x7FF) ∧
      (v.envelope.stage = .off → v.envelope.level = 0) ∧
      (v.startDelay ≠ 0 → v.envelope.level = 0 ∧ (v.envelope.stage = .attack ∨ v.envelope.stage = .release)) ∧
      (.keyOn ∉ after → v.envelope.stage.rank ≤ (after.foldl act v).envelope.stage.rank) ∧
      ∀ ram counter directory noise modulator,
        let tick := Tick.sampled counter directory noise modulator
        (-32768 ≤ v.scaled tick.noise ∧ v.scaled tick.noise ≤ 32767) ∧
          (v.startDelay = 0 → v.envelope.stage ≠ .off →
            (v.clock ram tick).1.output.toInt = Sample.even (v.scaled tick.noise)) := by
  intro v
  have h : v.Contained := Contained.initial.foldl before
  refine ⟨Envelope.valid_iff.1 h.envelope.level, h.envelope.off, h.starting, v.rank_foldl, ?_⟩
  intro ram counter directory noise modulator tick
  have ht : tick.Valid := Tick.valid_sampled counter directory noise modulator
  exact ⟨scaled_bounds h.envelope.level ht, fun hd ho ↦ toInt_output_clock h.envelope.level hd ho ram ht⟩

end Voice

end SoundUnit
