import SoundUnit.Proofs.Validity.Bus

namespace SoundUnit

theorem div_mod_carry {p : Nat} (hp : 0 < p) (e a b : Nat) :
    (e + a) / p + ((e + a) % p + b) / p = (e + (a + b)) / p ∧ ((e + a) % p + b) % p = (e + (a + b)) % p := by
  have h : e + (a + b) = (e + a) % p + b + p * ((e + a) / p) := by
    have := Nat.mod_add_div (e + a) p
    omega
  rw [h, Nat.add_mul_div_left _ _ hp, Nat.add_mul_mod_self_left]
  exact ⟨Nat.add_comm .., rfl⟩

namespace Timer

variable (t : Timer)

theorem steps_atTime (n elapsed : Nat) : steps n (t.atTime elapsed) = (steps n t).atTime elapsed := by
  induction n generalizing t with
  | zero => rfl
  | succ n ih => rw [steps, steps, step_atTime, ih]

theorem enabled_steps (n : Nat) : (steps n t).enabled = t.enabled := by
  induction n generalizing t with
  | zero => rfl
  | succ n ih =>
    rw [steps, ih]
    unfold step
    dsimp only
    split <;> rfl

theorem clock_of_enabled {t : Timer} (h : t.enabled) (clocks : Nat) :
    t.clock clocks =
      (steps ((t.elapsed + clocks) / t.period) t).atTime ((t.elapsed + clocks) % t.period) := by
  rw [← steps_atTime]
  exact if_pos h

theorem clock_of_disabled {t : Timer} (h : ¬ t.enabled) (clocks : Nat) : t.clock clocks = t := if_neg h

variable {t} {period clocks : Nat}

theorem clock_of_lt (h : t.enabled) (hlt : t.elapsed + clocks < t.period) :
    t.clock clocks = t.atTime (t.elapsed + clocks) := by
  rw [clock_of_enabled h, Nat.div_eq_of_lt hlt, Nat.mod_eq_of_lt hlt]
  rfl

/-- As long as there is a whole period of clocks left, it is taken away and the stage moves on. -/
theorem clock_of_le (h : t.enabled) (hp : 0 < t.period) (hle : t.period ≤ t.elapsed + clocks) :
    t.clock clocks = (t.step.atTime (t.elapsed + clocks - t.period)).clock 0 := by
  have he : (t.step.atTime (t.elapsed + clocks - t.period)).enabled := (t.enabled_steps 1).trans h
  have hperiod : t.step.period = t.period := (steps_keeps 1 t).1
  have hd := Nat.div_eq_sub_div hp hle
  have hm := Nat.mod_eq_sub_mod hle
  rw [clock_of_enabled h, clock_of_enabled he, steps_atTime, hd, hm]
  unfold atTime
  dsimp only
  rw [hperiod]
  rfl

theorem clock_clock (hp : 0 < t.period) (a b : Nat) : (t.clock a).clock b = t.clock (a + b) := by
  by_cases h : t.enabled
  · obtain ⟨hd, hm⟩ := div_mod_carry hp t.elapsed a b
    obtain ⟨hperiod, -⟩ := steps_keeps ((t.elapsed + a) / t.period) t
    have he : ((steps ((t.elapsed + a) / t.period) t).atTime ((t.elapsed + a) % t.period)).enabled :=
      (t.enabled_steps _).trans h
    rw [clock_of_enabled h, clock_of_enabled he, clock_of_enabled h, steps_atTime, ← steps_add]
    unfold atTime
    dsimp only
    rw [hperiod, hd, hm]
  · rw [clock_of_disabled h, clock_of_disabled h, clock_of_disabled h]

theorem Valid.clock_zero (h : t.Valid period) : t.clock 0 = t := by
  obtain ⟨-, hlt, -⟩ := h
  by_cases he : t.enabled
  · exact clock_of_lt he hlt
  · exact clock_of_disabled he 0

end Timer

namespace Dsp

variable (d : Dsp) (ram : Ram)

theorem clock_eq (clocks : Nat) :
    d.clock clocks ram =
      ((ticks ((d.elapsed + clocks) / sampleClocks) d ram).1.atTime ((d.elapsed + clocks) % sampleClocks),
        (ticks ((d.elapsed + clocks) / sampleClocks) d ram).2) :=
  ticks_atTime ..

variable {d ram} in
theorem clock_of_lt {clocks : Nat} (h : d.elapsed + clocks < sampleClocks) :
    d.clock clocks ram = (d.atTime (d.elapsed + clocks), ram) := by
  rw [clock_eq, Nat.div_eq_of_lt h, Nat.mod_eq_of_lt h]
  rfl

variable {d ram} in
theorem clock_of_le {clocks : Nat} (h : sampleClocks ≤ d.elapsed + clocks) :
    d.clock clocks ram =
      ((d.tick ram).1.atTime (d.elapsed + clocks - sampleClocks)).clock 0 (d.tick ram).2 := by
  have hd := Nat.div_eq_sub_div (by decide) h
  have hm := Nat.mod_eq_sub_mod h
  rw [clock_eq, clock_eq, ticks_atTime, hd, hm]
  rfl

theorem clock_clock (a b : Nat) : (d.clock a ram).1.clock b (d.clock a ram).2 = d.clock (a + b) ram := by
  have hp : 0 < sampleClocks := by decide
  obtain ⟨hd, hm⟩ := div_mod_carry hp d.elapsed a b
  have ht := ticks_add ((d.elapsed + a) / sampleClocks) (((d.elapsed + a) % sampleClocks + b) / sampleClocks) d ram
  rw [hd] at ht
  rw [d.clock_eq ram a, clock_eq, d.clock_eq ram (a + b), ticks_atTime]
  unfold atTime at *
  dsimp only
  rw [hm, ht]

variable {d} in
theorem Valid.clock_zero (h : d.Valid) : d.clock 0 ram = (d, ram) := clock_of_lt h.1

theorem frames_clock_append (clocks : Nat) :
    ∃ made : Array Frame, (d.clock clocks ram).1.frames = d.frames ++ made ∧
      made.size = (d.elapsed + clocks) / sampleClocks := by
  have hd : d = (d.reclock d.elapsed #[]).enqueue d.frames := by
    unfold enqueue reclock
    rw [Array.append_empty]
  have hs := (d.reclock d.elapsed #[]).size_frames_clock clocks ram
  rw [hd, clock_enqueue]
  exact ⟨_, rfl, hs.trans (Nat.zero_add _)⟩

end Dsp

namespace Bus

variable {b : Bus}

theorem period_pos : ∀ i : Fin 3, 0 < timerPeriods.get i := by decide

theorem TimersValid.clock_clock (h : b.TimersValid) (m n : Nat) : (b.clock m).clock n = b.clock (m + n) := by
  have ht : (b.timers.map (·.clock m)).map (·.clock n) = b.timers.map (·.clock (m + n)) := by
    refine Vector.ext fun i hi ↦ ?_
    have hp : 0 < b.timers[i].period := by
      rw [show b.timers[i].period = _ from (h ⟨i, hi⟩).1]
      exact period_pos ⟨i, hi⟩
    rw [Vector.getElem_map, Vector.getElem_map, Vector.getElem_map, Timer.clock_clock hp]
  have hd := b.dsp.clock_clock b.ram m n
  unfold clock
  dsimp only
  rw [ht, hd]

theorem DevicesValid.clock_zero (h : b.DevicesValid) : b.clock 0 = b := by
  have ht : b.timers.map (·.clock 0) = b.timers := by
    refine Vector.ext fun i hi ↦ ?_
    rw [Vector.getElem_map]
    exact (h.1 ⟨i, hi⟩).clock_zero
  unfold Bus.clock
  dsimp only
  rw [ht, h.2.clock_zero]

theorem DevicesValid.foldl_clock (h : b.DevicesValid) (pieces : List Nat) :
    pieces.foldl Bus.clock b = b.clock pieces.sum := by
  induction pieces generalizing b with
  | nil => exact h.clock_zero.symm
  | cons n pieces ih => rw [List.foldl_cons, ih (h.clock n), h.1.clock_clock, List.sum_cons]

/-- It makes no difference to the devices and the memory in which pieces time passes, and the frames that are made are
as many as periods of the sound generator end. -/
theorem clock_pieces (h : b.DevicesValid) (pieces : List Nat) :
    pieces.foldl clock b = b.clock pieces.sum ∧
      ∃ made : Array Frame, (pieces.foldl clock b).dsp.frames = b.dsp.frames ++ made ∧
        made.size = (b.dsp.elapsed + pieces.sum) / Dsp.sampleClocks := by
  rw [h.foldl_clock]
  exact ⟨rfl, b.dsp.frames_clock_append b.ram pieces.sum⟩

/-- The devices as they are when power comes on, but with the first timer running to a target of 1. -/
def firstTimerRunning : Bus := (Bus.reset { ram := .zero, bootRom := .standard }).write 0xFA 1 |>.write 0xF1 1

theorem clock_pieces_firstTimerRunning :
    firstTimerRunning.DevicesValid ∧ [100, 0, 30].foldl Bus.clock firstTimerRunning = firstTimerRunning.clock 130 ∧
      ([100, 0, 30].foldl Bus.clock firstTimerRunning).dsp.frames.size = 4 := by
  have h : firstTimerRunning.DevicesValid := ((reset_devicesValid _).write 0xFA 1).write 0xF1 1
  obtain ⟨he, made, hf, hs⟩ := clock_pieces h [100, 0, 30]
  refine ⟨h, he, ?_⟩
  rw [hf, Array.size_append, hs]
  rfl

end Bus

end SoundUnit
