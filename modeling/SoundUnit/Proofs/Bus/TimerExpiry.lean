import SoundUnit.Proofs.Bus.Passage

namespace SoundUnit

namespace Timer

/-- How many of the next `n` steps of the stage reach the target. -/
def expiries : Nat → Timer → Nat
  | 0, _ => 0
  | n + 1, t => (if t.stage + 1 = t.target then 1 else 0) + expiries n t.step

/-- Steps from one expiry to the next. -/
def lap (t : Timer) : Nat := if t.target = 0 then 256 else t.target.toNat

def distance (t : Timer) : Nat := (t.target - t.stage - 1).toNat + 1

section Steps

variable (t : Timer)

theorem lap_pos : 0 < t.lap := by
  unfold lap
  split
  · omega
  next h => exact Nat.pos_of_ne_zero fun hz ↦ h (UInt8.toNat_inj.1 hz)

theorem lap_le : t.lap ≤ 256 := by
  have := t.target.toNat_lt
  unfold lap
  split <;> omega

theorem distance_eq : t.distance = (t.target.toNat + (511 - t.stage.toNat)) % 256 + 1 := by
  have hs := t.stage.toNat_lt
  rw [distance, UInt8.toNat_sub, UInt8.toNat_sub]
  change (2 ^ 8 - 1 + (2 ^ 8 - t.stage.toNat + t.target.toNat) % 2 ^ 8) % 2 ^ 8 + 1 = _
  omega

theorem expires_iff : t.stage + 1 = t.target ↔ t.distance = 1 := by
  have ht := t.target.toNat_lt
  have hs := t.stage.toNat_lt
  rw [distance_eq, ← UInt8.toNat_inj, UInt8.toNat_add]
  change (t.stage.toNat + 1) % 2 ^ 8 = t.target.toNat ↔ _
  omega

variable {t}

theorem step_of_expiry (h : t.stage + 1 = t.target) :
    t.step = { t with stage := 0, output := (t.output + 1) &&& 0xF } := if_pos h

theorem step_of_not_expiry (h : ¬ t.stage + 1 = t.target) : t.step = { t with stage := t.stage + 1 } := if_neg h

theorem distance_of_expiry (h : t.stage + 1 = t.target) : t.step.distance = t.lap := by
  have ht := t.target.toNat_lt
  rw [step_of_expiry h, distance_eq]
  change (t.target.toNat + (511 - 0)) % 256 + 1 = if t.target = 0 then 256 else t.target.toNat
  split
  next hz =>
    rw [hz]
    rfl
  next hz =>
    have hpos : t.target.toNat ≠ 0 := fun he ↦ hz (UInt8.toNat_inj.1 he)
    omega

theorem distance_of_not_expiry (h : ¬ t.stage + 1 = t.target) : t.step.distance + 1 = t.distance := by
  have hs := t.stage.toNat_lt
  have hd : t.distance ≠ 1 := mt t.expires_iff.2 h
  have ha : (t.stage + 1).toNat = (t.stage.toNat + 1) % 256 := UInt8.toNat_add ..
  rw [step_of_not_expiry h, distance_eq]
  rw [distance_eq] at hd ⊢
  change (t.target.toNat + (511 - (t.stage + 1).toNat)) % 256 + 1 + 1 = _
  omega

theorem lap_step (t : Timer) : t.step.lap = t.lap := by
  by_cases h : t.stage + 1 = t.target
  · rw [step_of_expiry h]
    rfl
  · rw [step_of_not_expiry h]
    rfl

theorem output_of_expiry (h : t.stage + 1 = t.target) : t.step.output.toNat = (t.output.toNat + 1) % 16 := by
  have ha : (t.output + 1).toNat = (t.output.toNat + 1) % 256 := UInt8.toNat_add ..
  rw [step_of_expiry h]
  change ((t.output + 1) &&& 0xF).toNat = _
  rw [UInt8.toNat_and, ha]
  change (t.output.toNat + 1) % 256 &&& 2 ^ 4 - 1 = _
  rw [Nat.and_two_pow_sub_one_eq_mod]
  omega

theorem expiries_eq (n : Nat) (t : Timer) :
    expiries n t = if n < t.distance then 0 else 1 + (n - t.distance) / t.lap := by
  induction n generalizing t with
  | zero => simp [expiries, distance]
  | succ n ih =>
    rw [expiries, ih, lap_step]
    by_cases h : t.stage + 1 = t.target
    · rw [if_pos h, distance_of_expiry h, t.expires_iff.1 h, if_neg (by omega : ¬ n + 1 < 1), Nat.add_sub_cancel]
      by_cases hn : n < t.lap
      · rw [if_pos hn, Nat.div_eq_of_lt hn]
      · rw [if_neg hn, Nat.div_eq_sub_div t.lap_pos (Nat.not_lt.1 hn), Nat.add_comm _ 1]
    · rw [if_neg h, ← distance_of_not_expiry h, Nat.zero_add, Nat.add_sub_add_right]
      simp only [Nat.add_lt_add_iff_right]

theorem stage_steps (n : Nat) (t : Timer) :
    (steps n t).stage.toNat =
      if n < t.distance then (t.stage.toNat + n) % 256 else (n - t.distance) % t.lap := by
  induction n generalizing t with
  | zero =>
    have hs := t.stage.toNat_lt
    have hd : 0 < t.distance := Nat.succ_pos _
    rw [if_pos hd]
    exact (Nat.mod_eq_of_lt hs).symm
  | succ n ih =>
    rw [steps, ih, lap_step]
    by_cases h : t.stage + 1 = t.target
    · have hz : t.step.stage.toNat = 0 := by
        rw [step_of_expiry h]
        rfl
      have hl := t.lap_le
      rw [distance_of_expiry h, t.expires_iff.1 h, if_neg (by omega : ¬ n + 1 < 1), Nat.add_sub_cancel, hz]
      by_cases hn : n < t.lap
      · rw [if_pos hn, Nat.mod_eq_of_lt hn]
        omega
      · rw [if_neg hn, Nat.mod_eq_sub_mod (Nat.not_lt.1 hn)]
    · have hs : t.step.stage.toNat = (t.stage.toNat + 1) % 256 := by
        rw [step_of_not_expiry h]
        exact UInt8.toNat_add ..
      rw [← distance_of_not_expiry h, hs, Nat.mod_add_mod, Nat.add_assoc, Nat.add_comm 1 n, Nat.add_sub_add_right]
      simp only [Nat.add_lt_add_iff_right]

theorem output_steps (n : Nat) {t : Timer} (h : t.output ≤ 0xF) :
    (steps n t).output.toNat = (t.output.toNat + expiries n t) % 16 := by
  induction n generalizing t with
  | zero =>
    have hle : t.output.toNat ≤ 15 := UInt8.le_iff_toNat_le.1 h
    exact (Nat.mod_eq_of_lt (Nat.lt_succ_of_le hle)).symm
  | succ n ih =>
    rw [steps, ih (output_step_le h), expiries]
    by_cases he : t.stage + 1 = t.target
    · rw [if_pos he, output_of_expiry he]
      omega
    · rw [if_neg he, step_of_not_expiry he, Nat.zero_add]

theorem expiries_add (m n : Nat) (t : Timer) : expiries (m + n) t = expiries m t + expiries n (steps m t) := by
  induction m generalizing t with
  | zero => simp [expiries, steps]
  | succ m ih => rw [Nat.succ_add, expiries, ih, expiries, steps, Nat.add_assoc]

theorem target_steps (n : Nat) (t : Timer) : (steps n t).target = t.target := by
  induction n generalizing t with
  | zero => rfl
  | succ n ih =>
    rw [steps, ih]
    unfold step
    dsimp only
    split <;> rfl

end Steps

def stepsIn (t : Timer) (n : Nat) : Nat := (t.elapsed + n) / t.period

def expiriesIn (t : Timer) (n : Nat) : Nat := if t.enabled then expiries (t.stepsIn n) t else 0

inductive Use where
  | clock (n : Nat)
  | read

def use (t : Timer) : Use → List UInt8 × Timer
  | .clock n => ([], t.clock n)
  | .read => ([t.readOutput.1], t.readOutput.2)

def uses (t : Timer) : List Use → List UInt8 × Timer
  | [] => ([], t)
  | u :: us => ((t.use u).1 ++ ((t.use u).2.uses us).1, ((t.use u).2.uses us).2)

def Use.clocks : Use → Nat
  | .clock n => n
  | .read => 0

/-- The expiries of all the clocks, each counted as they pass. -/
def expiriesOver (t : Timer) : List Use → Nat
  | [] => 0
  | u :: us => t.expiriesIn u.clocks + (t.use u).2.expiriesOver us

section Uses

variable {t : Timer} {period : Nat}

theorem clock_eq (h : t.Valid period) (he : t.enabled) (n : Nat) :
    t.clock n =
      { t with
        elapsed := (t.elapsed + n) % t.period
        stage := UInt8.ofNat
          (if t.stepsIn n < t.distance then (t.stage.toNat + t.stepsIn n) % 256
            else (t.stepsIn n - t.distance) % t.lap)
        output := UInt8.ofNat ((t.output.toNat + t.expiriesIn n) % 16) } := by
  have hs := stage_steps (t.stepsIn n) t
  have ho := output_steps (t.stepsIn n) h.2.2
  have ht := target_steps (t.stepsIn n) t
  have hb := t.enabled_steps (t.stepsIn n)
  have hp := (steps_keeps (t.stepsIn n) t).1
  rw [expiriesIn, if_pos he, ← hs, ← ho, UInt8.ofNat_toNat, UInt8.ofNat_toNat, clock_of_enabled he]
  change (steps (t.stepsIn n) t).atTime _ = _
  unfold atTime
  rw [ht, hb, hp]

theorem output_clock (h : t.Valid period) (n : Nat) :
    (t.clock n).output.toNat = (t.output.toNat + t.expiriesIn n) % 16 := by
  by_cases he : t.enabled
  · have ho := output_steps (t.stepsIn n) h.2.2
    rw [expiriesIn, if_pos he, ← ho, clock_of_enabled he]
    rfl
  · have hle : t.output.toNat ≤ 15 := UInt8.le_iff_toNat_le.1 h.2.2
    rw [expiriesIn, if_neg he, clock_of_disabled he]
    exact (Nat.mod_eq_of_lt (Nat.lt_succ_of_le hle)).symm

theorem expiriesIn_zero (h : t.Valid period) : t.expiriesIn 0 = 0 := by
  rw [expiriesIn, stepsIn, Nat.add_zero, Nat.div_eq_of_lt h.2.1, expiries, ite_self]

theorem expiriesIn_readOutput (t : Timer) (n : Nat) : t.readOutput.2.expiriesIn n = t.expiriesIn n := by
  unfold expiriesIn
  rw [expiries_eq, expiries_eq]
  rfl

theorem expiriesIn_add (h : t.Valid period) (m n : Nat) :
    t.expiriesIn (m + n) = t.expiriesIn m + (t.clock m).expiriesIn n := by
  by_cases he : t.enabled
  · obtain ⟨hd, -⟩ := div_mod_carry (Nat.zero_lt_of_lt h.2.1) t.elapsed m n
    have hp := (steps_keeps (t.stepsIn m) t).1
    have hb : ((steps (t.stepsIn m) t).atTime ((t.elapsed + m) % t.period)).enabled :=
      (t.enabled_steps (t.stepsIn m)).trans he
    have hs : ((steps (t.stepsIn m) t).atTime ((t.elapsed + m) % t.period)).stepsIn n =
        ((t.elapsed + m) % t.period + n) / t.period :=
      congrArg (((t.elapsed + m) % t.period + n) / ·) hp
    have ha (k e : Nat) (t' : Timer) : expiries k (t'.atTime e) = expiries k t' := by
      rw [expiries_eq, expiries_eq]
      rfl
    have hc : t.clock m = (steps (t.stepsIn m) t).atTime ((t.elapsed + m) % t.period) := clock_of_enabled he m
    have hadd : t.stepsIn (m + n) = t.stepsIn m + ((t.elapsed + m) % t.period + n) / t.period := hd.symm
    rw [hc, expiriesIn, if_pos he, expiriesIn, if_pos he, expiriesIn, if_pos hb, hs, ha, ← expiries_add, ← hadd]
  · rw [clock_of_disabled he, expiriesIn, if_neg he, expiriesIn, if_neg he, expiriesIn, if_neg he]

theorem Valid.use (h : t.Valid period) (u : Use) : (t.use u).2.Valid period := by
  cases u with
  | clock n => exact h.clock n
  | read => exact h.readOutput

theorem sum_uses (h : t.Valid period) (us : List Use) :
    ((t.uses us).1.map UInt8.toNat).sum + (t.uses us).2.output.toNat ≡
      t.output.toNat + t.expiriesOver us [MOD 16] := by
  induction us generalizing t with
  | nil => exact (Nat.zero_add _).symm ▸ Nat.ModEq.refl _
  | cons u us ih =>
    have hu := ih (h.use u)
    cases u with
    | clock n =>
      have ho : (t.use (.clock n)).2.output.toNat ≡ t.output.toNat + t.expiriesIn n [MOD 16] :=
        output_clock h n ▸ Nat.mod_modEq _ 16
      calc
        _ ≡ (t.use (.clock n)).2.output.toNat + (t.use (.clock n)).2.expiriesOver us [MOD 16] := hu
        _ ≡ t.output.toNat + t.expiriesIn n + (t.use (.clock n)).2.expiriesOver us [MOD 16] := ho.add_right _
        _ = t.output.toNat + t.expiriesOver (.clock n :: us) := Nat.add_assoc ..
    | read =>
      have ho : (t.use .read).2.output.toNat = 0 := rfl
      rw [ho, Nat.zero_add] at hu
      calc
        _ = t.output.toNat + ((((t.use .read).2.uses us).1.map UInt8.toNat).sum + _) := Nat.add_assoc ..
        _ ≡ t.output.toNat + (t.use .read).2.expiriesOver us [MOD 16] := hu.add_left _
        _ = t.output.toNat + t.expiriesOver (.read :: us) := by
          rw [expiriesOver, Use.clocks, expiriesIn_zero h, Nat.zero_add]

theorem expiriesOver_eq (h : t.Valid period) (us : List Use) :
    t.expiriesOver us = t.expiriesIn (us.map Use.clocks).sum := by
  induction us generalizing t with
  | nil => exact (expiriesIn_zero h).symm
  | cons u us ih =>
    rw [expiriesOver, ih (h.use u), List.map_cons, List.sum_cons]
    cases u with
    | clock n => exact (expiriesIn_add h n _).symm
    | read =>
      change t.expiriesIn 0 + t.readOutput.2.expiriesIn _ = t.expiriesIn (0 + _)
      rw [expiriesIn_readOutput, expiriesIn_zero h, Nat.zero_add, Nat.zero_add]

end Uses

/-- Where a valid timer stands after any number of clocks and how often it has expired on the way. However clocks and
reads of the output follow each other, what is read adds up with what is left to the expiries, in four bits: none is
lost and none is counted twice. -/
theorem expiry_count {t : Timer} {period : Nat} (h : t.Valid period) :
    let first := (t.target - t.stage - 1).toNat + 1
    let lap := if t.target = 0 then 256 else t.target.toNat
    let moves := fun n ↦ (t.elapsed + n) / period
    let count := fun n ↦ if moves n < first then 0 else 1 + (moves n - first) / lap
    (¬ t.enabled → ∀ n, t.clock n = t) ∧
      (t.enabled → ∀ n, t.expiriesIn n = count n ∧
        t.clock n =
          { t with
            elapsed := (t.elapsed + n) % period
            stage := UInt8.ofNat
              (if moves n < first then (t.stage.toNat + moves n) % 256 else (moves n - first) % lap)
            output := UInt8.ofNat ((t.output.toNat + count n) % 16) }) ∧
      ∀ us, ((t.uses us).1.map UInt8.toNat).sum + (t.uses us).2.output.toNat ≡
          t.output.toNat + t.expiriesOver us [MOD 16] ∧
        t.expiriesOver us = t.expiriesIn (us.map Use.clocks).sum := by
  intro first lap moves count
  have hp : t.period = period := h.1
  refine ⟨clock_of_disabled, fun he n ↦ ?_, fun us ↦ ⟨sum_uses h us, expiriesOver_eq h us⟩⟩
  have hm : t.stepsIn n = moves n := congrArg ((t.elapsed + n) / ·) hp
  have hc : t.expiriesIn n = count n := by
    rw [expiriesIn, if_pos he, expiries_eq, hm]
    rfl
  refine ⟨hc, ?_⟩
  rw [clock_eq h he, hm, hc, hp]
  rfl

/-- The target is behind the stage, so that the stage wraps before the timer expires, and the output wraps as well. -/
theorem expiry_count_wrappedStage :
    let t : Timer := { target := 3, stage := 5, output := 15, enabled := true, period := 16, elapsed := 7 }
    t.Valid 16 ∧ t.enabled ∧ t.expiriesIn 4100 = 1 ∧
      t.clock 4100 = { t with elapsed := 11, stage := 2, output := 0 } := by
  intro t
  have hv : t.Valid 16 := by decide
  have he : t.enabled := rfl
  obtain ⟨hn, hc⟩ := (expiry_count hv).2.1 he 4100
  exact ⟨hv, he, hn.trans (by decide), hc.trans (by decide)⟩

end Timer

end SoundUnit
