import Mathlib
import SoundUnit.Proofs.Dsp.RateEvents

namespace SoundUnit

namespace Envelope

theorem after_succ (e : Envelope) (n : Nat) (c : UInt16) :
    e.after (n + 1) c = (e.after n c).clock (Rate.nextCounter^[n + 1] c) := by
  rw [after_add, Function.iterate_succ_apply']
  rfl

section Progress

variable {r : Rate} {P : Envelope → Prop} {μ : Envelope → Nat}

theorem measure_after (hs : ∀ e x, P e → P (e.clock x) → μ (e.clock x) + (if r.fires x then 1 else 0) ≤ μ e)
    {n : Nat} {e : Envelope} {c : UInt16} (h : ∀ k ≤ n, P (e.after k c)) :
    μ (e.after n c) + r.events n c ≤ μ e := by
  induction n generalizing e c with
  | zero => exact Nat.le_refl _
  | succ n ih =>
    have hfirst := hs e (Rate.nextCounter c) (h 0 (Nat.zero_le _)) (h 1 (Nat.succ_le_succ (Nat.zero_le n)))
    have hrest := ih (e := e.clock (Rate.nextCounter c)) fun k hk ↦ h (k + 1) (Nat.succ_le_succ hk)
    have he : e.after (n + 1) c = (e.clock (Rate.nextCounter c)).after n (Rate.nextCounter c) := rfl
    rw [he, Rate.events_succ]
    omega

/-- What a falling measure allows ends, and there is a first sample after it. -/
theorem first_exit (hr : r ≠ 0)
    (hs : ∀ e x, P e → P (e.clock x) → μ (e.clock x) + (if r.fires x then 1 else 0) ≤ μ e)
    {e : Envelope} {c : UInt16} (hc : c.toNat < Rate.range) (he : P e) :
    ∃ n, (∀ k ≤ n, P (e.after k c)) ∧ ¬ P (e.after (n + 1) c) := by
  classical
  have hex : ∃ n, ¬ P (e.after n c) := by
    by_contra hall
    push Not at hall
    have hle := measure_after hs (n := (μ e + 1) * r.period) (c := c) fun k _ ↦ hall k
    rw [Rate.events_periods hr hc] at hle
    omega
  obtain ⟨n, hn⟩ : ∃ n, Nat.find hex = n + 1 := by
    refine Nat.exists_eq_succ_of_ne_zero fun hz ↦ ?_
    have := Nat.find_spec hex
    rw [hz] at this
    exact this he
  refine ⟨n, fun k hk ↦ ?_, hn ▸ Nat.find_spec hex⟩
  exact not_not.1 (Nat.find_min hex (by omega))

end Progress

/-- The envelope is in stage `s` of its settings `adsr`. -/
structure InStage (adsr : UInt16) (s : Stage) (e : Envelope) : Prop where
  adsr : e.adsr = adsr
  stage : e.stage = s
  level : e.Valid

def sustainField (adsr : UInt16) : Nat := (adsr >>> 13).toNat

theorem sustainField_le (adsr : UInt16) : sustainField adsr ≤ 7 := by
  have h := adsr.toNat_lt
  have he : sustainField adsr = adsr.toNat / 8192 := by
    rw [sustainField, UInt16.toNat_shiftRight]
    exact Nat.shiftRight_eq_div_pow ..
  omega

/-- A decay ends before its level is lower than this. -/
def decayFloor (adsr : UInt16) : Int := min 0x7E0 (0x100 * (sustainField adsr + 1))

section Stages

variable {adsr : UInt16} {s : Stage} {e : Envelope}

theorem attackRate_ne_zero (e : Envelope) : e.attackRate ≠ 0 := by
  intro h
  have hv : ((e.adsr &&& 0xF).toNat * 2 + 1) % 32 = 0 := congrArg Fin.val h
  omega

theorem decayRate_ne_zero (e : Envelope) : e.decayRate ≠ 0 := by
  intro h
  have hv : (16 + (e.adsr >>> 4 &&& 7).toNat * 2) % 32 = 0 := congrArg Fin.val h
  have hle : (e.adsr >>> 4 &&& 7).toNat ≤ 7 := Nat.and_le_right
  omega

theorem fires_fastest (x : UInt16) : Rate.fires 31 x := by
  rw [Rate.fires_eq]
  exact decide_eq_true (Nat.mod_one _)

theorem toInt_clamped (next : Int) :
    (Int16.ofInt (min maxLevel (max 0 next))).toInt = min 0x7FF (max 0 next) := by
  unfold maxLevel
  exact Int16.toInt_ofInt_of_le (by omega) (by omega)

theorem InStage.usesAdsr (h : e.InStage adsr s) (ha : adsr &&& 0x80 ≠ 0) : e.usesAdsr := by
  rw [Envelope.usesAdsr, h.adsr]
  exact decide_eq_true ha

theorem InStage.sustainLevel (h : e.InStage adsr s) (ha : adsr &&& 0x80 ≠ 0) :
    e.sustainLevel = sustainField adsr := by
  rw [Envelope.sustainLevel, if_pos (h.usesAdsr ha), h.adsr, sustainField]

theorem InStage.level_bounds (h : e.InStage adsr s) : 0 ≤ e.level.toInt ∧ e.level.toInt ≤ 0x7FF := valid_iff.1 h.level

theorem InStage.clock (h : e.InStage adsr s) (hm : e.Moving) (x : UInt16) :
    (e.clock x).InStage adsr (e.nextStage e.candidate.1) ∧
      (e.clock x).level.toInt = if e.candidate.2.fires x then min 0x7FF (max 0 e.candidate.1) else e.level.toInt := by
  have hv := h.level.clock x
  rw [clock_of_moving hm] at hv ⊢
  refine ⟨⟨h.adsr, rfl, hv⟩, ?_⟩
  dsimp only
  split
  · exact toInt_clamped _
  · rfl

theorem InStage.moving (h : e.InStage adsr s) (hr : s ≠ .release) (ho : s ≠ .off) : e.Moving :=
  ⟨h.stage ▸ hr, h.stage ▸ ho⟩

theorem attack_clock (ha : adsr &&& 0x80 ≠ 0) (h : e.InStage adsr .attack) (x : UInt16) :
    ((e.clock x).InStage adsr .attack ∧
        e.level.toInt + (if e.attackRate.fires x then 1 else 0) ≤ (e.clock x).level.toInt) ∨
      ((e.clock x).InStage adsr .decay ∧ 0x7E0 ≤ (e.clock x).level.toInt) := by
  obtain ⟨hl, hl'⟩ := h.level_bounds
  obtain ⟨hi, hlevel⟩ := h.clock (h.moving (by decide) (by decide)) x
  have hc : e.candidate = (e.level.toInt + if e.attackRate < 31 then 0x20 else 0x400, e.attackRate) := by
    unfold candidate
    rw [if_pos (h.usesAdsr ha), h.stage]
  have hn : e.nextStage e.candidate.1 = if e.candidate.1 < 0 ∨ maxLevel < e.candidate.1 then .decay else .attack := by
    rw [nextStage, h.stage]
  rw [hn] at hi
  rw [hc] at hi hlevel
  dsimp only at hi hlevel
  unfold maxLevel at hi
  by_cases hr : e.attackRate < 31
  · rw [if_pos hr] at hi hlevel
    split at hi
    · refine .inr ⟨hi, ?_⟩
      split at hlevel <;> omega
    · refine .inl ⟨hi, ?_⟩
      split_ifs at hlevel ⊢ <;> omega
  · have he : e.attackRate = 31 := by
      have := e.attackRate.isLt
      rw [Fin.lt_def] at hr
      exact Fin.ext (by omega)
    have hf : e.attackRate.fires x := he ▸ fires_fastest x
    rw [if_neg hr] at hi hlevel
    rw [if_pos hf] at hlevel
    split at hi
    · exact .inr ⟨hi, by omega⟩
    · refine .inl ⟨hi, ?_⟩
      rw [if_pos hf]
      omega

theorem decay_clock (ha : adsr &&& 0x80 ≠ 0) (h : e.InStage adsr .decay) (hf : decayFloor adsr ≤ e.level.toInt)
    (x : UInt16) :
    ((e.clock x).InStage adsr .decay ∧ sustainField adsr < 7 ∧ decayFloor adsr ≤ (e.clock x).level.toInt ∧
        (e.clock x).level.toInt + (if e.decayRate.fires x then 1 else 0) ≤ e.level.toInt) ∨
      (e.clock x).InStage adsr .sustain := by
  have hfield := sustainField_le adsr
  obtain ⟨hl, hl'⟩ := h.level_bounds
  obtain ⟨hi, hlevel⟩ := h.clock (h.moving (by decide) (by decide)) x
  have hc : e.candidate = (exponentialDecrease e.level.toInt, e.decayRate) := by
    unfold candidate
    rw [if_pos (h.usesAdsr ha), h.stage]
  have hn : e.nextStage e.candidate.1 = if e.candidate.1 / 256 = sustainField adsr then .sustain else .decay := by
    rw [nextStage, h.stage, h.sustainLevel ha]
  rw [hn, hc] at hi
  rw [hc] at hlevel
  dsimp only at hi hlevel
  unfold exponentialDecrease at hi hlevel
  unfold decayFloor at *
  split at hi
  · exact .inr hi
  · refine .inl ⟨hi, ?_⟩
    split_ifs at hlevel ⊢ <;> omega

theorem sustain_clock (h : e.InStage adsr .sustain) (x : UInt16) : (e.clock x).InStage adsr .sustain := by
  have hn (candidate : Int) : e.nextStage candidate = .sustain := by rw [nextStage, h.stage]
  exact hn _ ▸ (h.clock (h.moving (by decide) (by decide)) x).1

/-- The attack ends after finitely many samples. -/
theorem attack_after (ha : adsr &&& 0x80 ≠ 0) (h : e.InStage adsr .attack) {c : UInt16} (hc : c.toNat < Rate.range) :
    ∃ n, (∀ k ≤ n, (e.after k c).InStage adsr .attack) ∧ (e.after (n + 1) c).InStage adsr .decay ∧
      0x7E0 ≤ (e.after (n + 1) c).level.toInt := by
  have hs (e' : Envelope) (x : UInt16) (h' : e'.InStage adsr .attack) (hx : (e'.clock x).InStage adsr .attack) :
      (0x7FF - (e'.clock x).level.toInt).toNat + (if e.attackRate.fires x then 1 else 0) ≤
        (0x7FF - e'.level.toInt).toNat := by
    have hr : e'.attackRate = e.attackRate := by rw [attackRate, h'.adsr, ← h.adsr, attackRate]
    obtain ⟨-, hle⟩ | ⟨hd, -⟩ := attack_clock ha h' x
    · rw [hr] at hle
      have := hx.level_bounds
      split_ifs at hle ⊢ <;> omega
    · exact absurd (hd.stage.symm.trans hx.stage) (by decide)
  obtain ⟨n, hall, hn⟩ :=
    first_exit (μ := fun e ↦ (0x7FF - e.level.toInt).toNat) e.attackRate_ne_zero hs hc h
  refine ⟨n, hall, ?_⟩
  rw [after_succ] at hn ⊢
  obtain ⟨hx, -⟩ | hx := attack_clock ha (hall n (Nat.le_refl n)) (Rate.nextCounter^[n + 1] c)
  · exact absurd hx hn
  · exact hx

/-- The decay ends after finitely many samples, and above its floor until then; if it has to end at the top, it ends
with the first one. -/
theorem decay_after (ha : adsr &&& 0x80 ≠ 0) (h : e.InStage adsr .decay) (hf : decayFloor adsr ≤ e.level.toInt)
    {c : UInt16} (hc : c.toNat < Rate.range) :
    ∃ n, (∀ k ≤ n, (e.after k c).InStage adsr .decay ∧ decayFloor adsr ≤ (e.after k c).level.toInt) ∧
      (e.after (n + 1) c).InStage adsr .sustain ∧ (sustainField adsr = 7 → n = 0) := by
  let P (e' : Envelope) : Prop := e'.InStage adsr .decay ∧ decayFloor adsr ≤ e'.level.toInt
  have hs (e' : Envelope) (x : UInt16) (h' : P e') (hx : P (e'.clock x)) :
      (e'.clock x).level.toInt.toNat + (if e.decayRate.fires x then 1 else 0) ≤ e'.level.toInt.toNat := by
    have hr : e'.decayRate = e.decayRate := by rw [decayRate, h'.1.adsr, ← h.adsr, decayRate]
    obtain ⟨-, -, -, hle⟩ | hsus := decay_clock ha h'.1 h'.2 x
    · rw [hr] at hle
      have := hx.1.level_bounds
      split_ifs at hle ⊢ <;> omega
    · exact absurd (hsus.stage.symm.trans hx.1.stage) (by decide)
  obtain ⟨n, hall, hn⟩ := first_exit (μ := fun e ↦ e.level.toInt.toNat) e.decayRate_ne_zero hs hc ⟨h, hf⟩
  refine ⟨n, hall, ?_, fun h7 ↦ ?_⟩
  · obtain ⟨hd, hd'⟩ := hall n (Nat.le_refl n)
    rw [after_succ] at hn ⊢
    obtain ⟨hx, -, hx', -⟩ | hx := decay_clock ha hd hd' (Rate.nextCounter^[n + 1] c)
    · exact absurd ⟨hx, hx'⟩ hn
    · exact hx
  · by_contra hz
    obtain ⟨h1, -⟩ := hall 1 (Nat.pos_of_ne_zero hz)
    obtain ⟨-, hlt, -⟩ | hx := decay_clock ha h hf (Rate.nextCounter c)
    · omega
    · exact absurd (hx.stage.symm.trans h1.stage) (by decide)

theorem sustain_after (h : e.InStage adsr .sustain) (n : Nat) (c : UInt16) : (e.after n c).InStage adsr .sustain := by
  induction n generalizing e c with
  | zero => exact h
  | succ n ih => exact ih (sustain_clock h _) _

end Stages

/-- After a key-on there is an attack, then a decay, then the sustain, which is reached after finitely many samples from
every value of the counter and not left again. The decay begins near the top and does not miss the level at which it has
to end. -/
theorem adsr_stages (e : Envelope) (ha : e.adsr &&& 0x80 ≠ 0) {c : UInt16} (hc : c.toNat < Rate.range) :
    let level := (e.adsr >>> 13).toNat
    let run := fun n ↦ (Rate.counters n c).foldl clock e.keyOn
    ∃ attack decay, 0 < attack ∧ 0 < decay ∧
      (∀ n < attack, (run n).stage = .attack) ∧
      (∀ n, attack ≤ n → n < attack + decay → (run n).stage = .decay) ∧
      (∀ n, attack + decay ≤ n → (run n).stage = .sustain) ∧
      0x7E0 ≤ (run attack).level.toInt ∧
      (level < 7 → ∀ n, (run n).stage = .decay → 0x100 * ((level : Int) + 1) ≤ (run n).level.toInt) ∧
      (level = 7 → decay = 1) := by
  intro level run
  have hk : e.keyOn.InStage e.adsr .attack := ⟨rfl, rfl, keyOn_valid e⟩
  obtain ⟨a, hatt, hd, htop⟩ := attack_after ha hk hc
  have hfloor : decayFloor e.adsr ≤ (run (a + 1)).level.toInt := Int.le_trans (Int.min_le_left ..) htop
  obtain ⟨d, hdec, hs, hlast⟩ := decay_after ha hd hfloor (Rate.iterate_nextCounter hc (a + 1))
  have hrun (k : Nat) : run (a + 1 + k) = (run (a + 1)).after k (Rate.nextCounter^[a + 1] c) := after_add ..
  have hdecay (n : Nat) (h₁ : a + 1 ≤ n) (h₂ : n < a + 1 + (d + 1)) :
      (run n).InStage e.adsr .decay ∧ decayFloor e.adsr ≤ (run n).level.toInt := by
    obtain ⟨k, rfl⟩ := Nat.exists_eq_add_of_le h₁
    rw [hrun]
    exact hdec k (by omega)
  have hsustain (n : Nat) (h : a + 1 + (d + 1) ≤ n) : (run n).InStage e.adsr .sustain := by
    obtain ⟨k, rfl⟩ := Nat.exists_eq_add_of_le h
    rw [Nat.add_assoc, hrun, after_add]
    exact sustain_after hs k _
  refine ⟨a + 1, d + 1, Nat.succ_pos a, Nat.succ_pos d, fun n hn ↦ (hatt n (by omega)).stage,
    fun n h₁ h₂ ↦ (hdecay n h₁ h₂).1.stage, fun n hn ↦ (hsustain n hn).stage, htop, fun h7 n hn ↦ ?_, fun h7 ↦ ?_⟩
  · rcases Nat.lt_or_ge n (a + 1) with h₁ | h₁
    · exact absurd ((hatt n (by omega)).stage.symm.trans hn) (by decide)
    · rcases Nat.lt_or_ge n (a + 1 + (d + 1)) with h₂ | h₂
      · have hle : decayFloor e.adsr ≤ (run n).level.toInt := (hdecay n h₁ h₂).2
        have hmin : decayFloor e.adsr = min 0x7E0 (0x100 * ((level : Int) + 1)) := rfl
        omega
      · exact absurd ((hsustain n h₂).stage.symm.trans hn) (by decide)
  · rw [hlast h7]

/-- The fastest attack and decay to level 3, from a counter that is about to wrap. -/
theorem adsr_stages_fastest :
    ({ adsr := 0x60FF } : Envelope).adsr &&& 0x80 ≠ 0 ∧ (1 : UInt16).toNat < Rate.range ∧
      ∃ n, ((Rate.counters n 1).foldl clock ({ adsr := 0x60FF } : Envelope).keyOn).stage = .sustain := by
  have ha : ({ adsr := 0x60FF } : Envelope).adsr &&& 0x80 ≠ 0 := by decide
  have hc : (1 : UInt16).toNat < Rate.range := by decide
  obtain ⟨attack, decay, -, -, -, -, hs, -⟩ := adsr_stages { adsr := 0x60FF } ha hc
  exact ⟨ha, hc, attack + decay, hs _ (Nat.le_refl _)⟩

end Envelope

end SoundUnit
