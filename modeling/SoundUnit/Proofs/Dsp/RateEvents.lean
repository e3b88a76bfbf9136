import SoundUnit.Proofs.Dsp.Voices
import SoundUnit.Proofs.Validity.Dsp

namespace SoundUnit

namespace Rate

def counters : Nat → UInt16 → List UInt16
  | 0, _ => []
  | n + 1, c => nextCounter c :: counters n (nextCounter c)

theorem length_counters (n : Nat) (c : UInt16) : (counters n c).length = n := by
  induction n generalizing c with
  | zero => rfl
  | succ n ih => simp [counters, ih]

theorem counters_add (m n : Nat) (c : UInt16) :
    counters (m + n) c = counters m c ++ counters n (nextCounter^[m] c) := by
  induction m generalizing c with
  | zero => simp [counters]
  | succ m ih => simp [Nat.succ_add, counters, ih]

theorem window_counters {i k n : Nat} (h : i + k ≤ n) (c : UInt16) :
    ((counters n c).drop i).take k = counters k (nextCounter^[i] c) := by
  obtain ⟨j, rfl⟩ := Nat.exists_eq_add_of_le h
  rw [Nat.add_assoc, counters_add, List.drop_left' (length_counters i c), counters_add,
    List.take_left' (length_counters k _)]

theorem iterate_nextCounter {c : UInt16} (h : c.toNat < range) (n : Nat) : (nextCounter^[n] c).toNat < range := by
  induction n generalizing c with
  | zero => exact h
  | succ n ih => exact ih (Dsp.toNat_nextCounter h)

theorem counters_lt {c : UInt16} (h : c.toNat < range) (n : Nat) : ∀ x ∈ counters n c, x.toNat < range := by
  induction n generalizing c with
  | zero => simp [counters]
  | succ n ih =>
    intro x hx
    obtain rfl | hx := List.mem_cons.1 hx
    · exact Dsp.toNat_nextCounter h
    · exact ih (Dsp.toNat_nextCounter h) x hx

def period (r : Rate) : Nat := periods.get r

def phase (r : Rate) : Nat := phases.get r

theorem fires_eq (r : Rate) (c : UInt16) : r.fires c = decide ((c.toNat + r.phase) % r.period = 0) := rfl

theorem period_dvd_range : ∀ r : Rate, r ≠ 0 → r.period ∣ range := by decide

theorem period_pos : ∀ r : Rate, 0 < r.period := by decide

theorem phase_le : ∀ r : Rate, r.phase ≤ 1040 := by decide

/-- The samples since the last event of a rate. -/
def age (r : Rate) (c : UInt16) : Nat := (2 * range - (c.toNat + r.phase)) % r.period

section Age

variable {r : Rate} {c : UInt16}

theorem age_lt (r : Rate) (c : UInt16) : r.age c < r.period := Nat.mod_lt _ (period_pos r)

theorem fires_iff_age (hr : r ≠ 0) (hc : c.toNat < range) : r.fires c ↔ r.age c = 0 := by
  have hp := phase_le r
  have hd : r.period ∣ 2 * range := Nat.dvd_mul_left_of_dvd (period_dvd_range r hr) 2
  have hle : c.toNat + r.phase ≤ 2 * range := by
    unfold range at *
    omega
  rw [age, ← Nat.dvd_iff_mod_eq_zero, Nat.dvd_sub_iff_right hle hd]
  simp [fires_eq, Nat.dvd_iff_mod_eq_zero]

theorem age_nextCounter (hr : r ≠ 0) (hc : c.toNat < range) : r.age (nextCounter c) = (r.age c + 1) % r.period := by
  have hp := phase_le r
  unfold age nextCounter
  rw [Nat.mod_add_mod]
  by_cases hz : c = 0
  · have he : 2 * range - ((0 : UInt16).toNat + r.phase) + 1 =
        2 * range - ((30719 : UInt16).toNat + r.phase) + range := by
      change 2 * 30720 - (0 + r.phase) + 1 = 2 * 30720 - (30719 + r.phase) + 30720
      omega
    rw [if_pos hz, hz, he, Nat.add_mod, Nat.mod_eq_zero_of_dvd (period_dvd_range r hr), Nat.add_zero, Nat.mod_mod]
  · have hc1 : (c - 1).toNat = c.toNat - 1 := by
      rw [UInt16.toNat_sub_of_le]
      · rfl
      · exact UInt16.le_iff_toNat_le.2 (Nat.pos_of_ne_zero fun h ↦ hz (UInt16.toNat_inj.1 h))
    have hpos : 0 < c.toNat := Nat.pos_of_ne_zero fun h ↦ hz (UInt16.toNat_inj.1 h)
    rw [if_neg hz, hc1]
    congr 1
    unfold range at *
    omega

end Age

/-- How many of the next `n` samples are events of a rate. -/
def events (r : Rate) (n : Nat) (c : UInt16) : Nat := (counters n c).countP r.fires

theorem events_succ (r : Rate) (n : Nat) (c : UInt16) :
    r.events (n + 1) c = r.events n (nextCounter c) + if r.fires (nextCounter c) then 1 else 0 := by
  simp [events, counters, List.countP_cons]

theorem events_eq {r : Rate} (hr : r ≠ 0) {c : UInt16} (hc : c.toNat < range) (n : Nat) :
    r.events n c = (r.age c + n) / r.period := by
  induction n generalizing c with
  | zero => exact (Nat.div_eq_of_lt (r.age_lt c)).symm
  | succ n ih =>
    have hn := Dsp.toNat_nextCounter hc
    have hlt := r.age_lt c
    have ha := age_nextCounter hr hc
    rw [events_succ, ih hn]
    have h : r.age c + 1 < r.period ∨ r.age c + 1 = r.period := Nat.lt_or_eq_of_le hlt
    rcases h with h | h
    · rw [Nat.mod_eq_of_lt h] at ha
      have hf : ¬ r.fires (nextCounter c) := by
        rw [fires_iff_age hr hn, ha]
        exact Nat.succ_ne_zero _
      rw [if_neg hf, ha, Nat.add_zero, Nat.add_assoc, Nat.add_comm 1 n]
    · rw [h, Nat.mod_self] at ha
      have he : r.age c + (n + 1) = n + r.period := by rw [← h, Nat.add_left_comm]
      rw [if_pos ((fires_iff_age hr hn).2 ha), ha, he, Nat.add_div_right _ (period_pos r), Nat.zero_add]

/-- In any number of whole periods there are as many events, wherever they begin. -/
theorem events_periods {r : Rate} (hr : r ≠ 0) {c : UInt16} (hc : c.toNat < range) (m : Nat) :
    r.events (m * r.period) c = m := by
  rw [events_eq hr hc, Nat.add_mul_div_right _ _ (period_pos r), Nat.div_eq_of_lt (r.age_lt c), Nat.zero_add]

theorem not_fires_zero {c : UInt16} (hc : c.toNat < range) : fires 0 c = false := by
  have hlt : c.toNat + 1 < 30721 := by
    unfold range at hc
    omega
  change decide ((c.toNat + 1) % 30721 = 0) = false
  rw [Nat.mod_eq_of_lt hlt]
  simp

end Rate

namespace Dsp

variable (d : Dsp) (ram : Ram)

theorem noise_applyKeys : d.applyKeys.counter = d.counter ∧ d.applyKeys.noise = d.noise := by
  by_cases h : d.softReset
  · simp [applyKeys_of_softReset h]
  · simp [applyKeys_of_running h]

theorem noise_tick :
    (d.tick ram).1.counter = Rate.nextCounter d.counter ∧
      (d.tick ram).1.noise =
        if d.noiseRate.fires (Rate.nextCounter d.counter) then shiftNoise d.noise else d.noise := by
  obtain ⟨voices, ended, hp⟩ := clockVoices_frame d.stepCounter.stepNoise.applyKeys ram
  obtain ⟨echo, frame, hf⟩ := d.tick_frame ram
  obtain ⟨hc, hn⟩ := d.stepCounter.stepNoise.noise_applyKeys
  rw [hf, prepare, hp]
  exact ⟨hc, hn⟩

theorem noiseRate_tick : (d.tick ram).1.noiseRate = d.noiseRate := by
  rw [noiseRate, flags_tick, noiseRate]

theorem counter_ticks (n : Nat) : (ticks n d ram).1.counter = Rate.nextCounter^[n] d.counter := by
  induction n generalizing d ram with
  | zero => rfl
  | succ n ih => rw [ticks, ih, (d.noise_tick ram).1, Function.iterate_succ_apply]

theorem noise_ticks (n : Nat) :
    (ticks n d ram).1.noise = shiftNoise^[d.noiseRate.events n d.counter] d.noise := by
  induction n generalizing d ram with
  | zero => rfl
  | succ n ih =>
    obtain ⟨hc, hn⟩ := d.noise_tick ram
    rw [ticks, ih, noiseRate_tick, hc, hn, Rate.events_succ]
    split
    · rw [Function.iterate_succ_apply]
    · rfl

end Dsp

namespace Envelope

def after (e : Envelope) (n : Nat) (c : UInt16) : Envelope := (Rate.counters n c).foldl clock e

theorem after_add (e : Envelope) (m n : Nat) (c : UInt16) :
    e.after (m + n) c = (e.after m c).after n (Rate.nextCounter^[m] c) := by
  rw [after, Rate.counters_add, List.foldl_append]
  rfl

/-- The envelope moves with the rate of its candidates: it is neither released nor off. -/
def Moving (e : Envelope) : Prop := e.stage ≠ .release ∧ e.stage ≠ .off

theorem clock_of_moving {e : Envelope} (h : e.Moving) (counter : UInt16) :
    e.clock counter =
      { e with
        stage := e.nextStage e.candidate.1
        hidden := Int32.ofInt e.candidate.1
        level :=
          if e.candidate.2.fires counter then Int16.ofInt (min maxLevel (max 0 e.candidate.1)) else e.level } := by
  obtain ⟨hr, ho⟩ := h
  unfold clock
  split
  next he => exact absurd he ho
  next he => exact absurd he hr
  next => rfl

theorem moving_clock {e : Envelope} (h : e.Moving) (counter : UInt16) : (e.clock counter).Moving := by
  rw [clock_of_moving h]
  obtain ⟨hr, ho⟩ := h
  unfold Moving nextStage
  dsimp only
  cases he : e.stage with
  | attack | decay =>
    dsimp only
    split <;> simp
  | sustain => simp
  | release => exact absurd he hr
  | off => exact absurd he ho

/-- An envelope whose candidate depends on the level alone. -/
def Steady (e : Envelope) : Prop :=
  e.Moving ∧ if e.usesAdsr then e.stage = .sustain else e.gainMode ≠ .bentIncrease

def resting (e : Envelope) (level : Int16) : Envelope := { e with stage := .sustain, hidden := 0, level }

def nextLevel (e : Envelope) (level : Int16) : Int16 :=
  Int16.ofInt (min maxLevel (max 0 (e.resting level).candidate.1))

section Steady

variable {e : Envelope}

def steadyRate (e : Envelope) : Rate := if e.usesAdsr then e.sustainRate else e.gainRate

theorem candidate_of_steady (h : e.Steady) : e.candidate = ((e.resting e.level).candidate.1, e.steadyRate) := by
  obtain ⟨-, h⟩ := h
  have hu : (e.resting e.level).usesAdsr = e.usesAdsr := rfl
  have hg : (e.resting e.level).gainMode = e.gainMode := rfl
  unfold candidate steadyRate
  rw [hu, hg]
  split at h
  next ha => simp [ha, h, resting, sustainRate]
  next ha =>
    rw [if_neg ha, if_neg ha, if_neg ha]
    cases hm : e.gainMode with
    | bentIncrease => exact absurd hm h
    | _ => rfl

theorem Steady.clock (h : e.Steady) (counter : UInt16) :
    (e.clock counter).Steady ∧ (e.clock counter).nextLevel = e.nextLevel ∧
      (e.clock counter).steadyRate = e.steadyRate ∧
      (e.clock counter).level = if e.steadyRate.fires counter then e.nextLevel e.level else e.level := by
  have hm := moving_clock h.1 counter
  have hs := h.2
  rw [clock_of_moving h.1, candidate_of_steady h] at hm ⊢
  refine ⟨⟨hm, ?_⟩, rfl, rfl, rfl⟩
  split at hs
  next ha =>
    have hn : e.nextStage (e.resting e.level).candidate.1 = .sustain := by rw [nextStage, hs]
    exact (if_pos ha).symm ▸ hn
  next ha => exact (if_neg ha).symm ▸ hs

theorem level_after (h : e.Steady) (n : Nat) (c : UInt16) :
    (e.after n c).level = e.nextLevel^[e.steadyRate.events n c] e.level := by
  induction n generalizing e c with
  | zero => rfl
  | succ n ih =>
    obtain ⟨hs, hn, hr, hl⟩ := h.clock (Rate.nextCounter c)
    have he : e.after (n + 1) c = (e.clock (Rate.nextCounter c)).after n (Rate.nextCounter c) := rfl
    rw [he, ih hs, hn, hr, hl, Rate.events_succ]
    split
    · rw [Function.iterate_succ_apply]
    · rfl

end Steady

end Envelope

namespace Rate

/-- Rates keep their time: whatever the counter starts from and however often it wraps, any `m` periods of a rate hold
`m` of its events, and rate 0 has none. The counter of the sound generator goes this way; its noise and the level of a
steady envelope move on with the events of their rates and at no other time. -/
theorem events_periodic {c : UInt16} (hc : c.toNat < range) (n : Nat) :
    (∀ r : Rate, r ≠ 0 → ∀ i m, i + m * r.period ≤ n →
        (((counters n c).drop i).take (m * r.period)).countP r.fires = m) ∧
      (counters n c).countP (fires 0) = 0 ∧
      (∀ (d : Dsp) (ram : Ram), d.counter = c →
        (Dsp.ticks n d ram).1.counter = nextCounter^[n] c ∧
          (Dsp.ticks n d ram).1.noise = Dsp.shiftNoise^[(counters n c).countP d.noiseRate.fires] d.noise) ∧
      ∀ e : Envelope, e.Steady →
        ((counters n c).foldl Envelope.clock e).level =
          e.nextLevel^[(counters n c).countP e.steadyRate.fires] e.level := by
  refine ⟨fun r hr i m hle ↦ ?_, ?_, fun d ram hd ↦ ?_, fun e he ↦ Envelope.level_after he n c⟩
  · rw [window_counters hle]
    exact events_periods hr (iterate_nextCounter hc i) m
  · rw [List.countP_eq_zero]
    intro x hx
    rw [not_fires_zero (counters_lt hc n x hx)]
    exact Bool.false_ne_true
  · subst hd
    exact ⟨d.counter_ticks ram n, d.noise_ticks ram n⟩

/-- Rate 30 fires with every second sample, also when the counter wraps from 0 to 30719. -/
theorem events_periodic_wrap :
    (0 : UInt16).toNat < range ∧ (1 : Nat) + 3 * period 30 ≤ 7 ∧
      (((counters 7 0).drop 1).take (3 * period 30)).countP (fires 30) = 3 :=
  ⟨by decide, by decide, (events_periodic (by decide) 7).1 30 (by decide) 1 3 (by decide)⟩

end Rate

end SoundUnit
