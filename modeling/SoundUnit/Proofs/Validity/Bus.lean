import SoundUnit.Machine.Core
import SoundUnit.Proofs.Validity.Dsp

namespace SoundUnit

namespace Timer

theorem steps_keeps (n : Nat) (t : Timer) :
    (steps n t).period = t.period ∧ (steps n t).elapsed = t.elapsed := by
  induction n generalizing t with
  | zero => exact ⟨rfl, rfl⟩
  | succ n ih =>
    obtain ⟨hp, he⟩ := ih t.step
    rw [steps, hp, he]
    unfold step
    dsimp only
    split <;> exact ⟨rfl, rfl⟩

def atTime (t : Timer) (elapsed : Nat) : Timer := { t with elapsed }

theorem step_atTime (t : Timer) (elapsed : Nat) : (t.atTime elapsed).step = t.step.atTime elapsed := by
  unfold step atTime
  dsimp only
  split <;> rfl

theorem output_step_le {t : Timer} (h : t.output ≤ 0xF) : t.step.output ≤ 0xF := by
  unfold step
  dsimp only
  split
  · rw [UInt8.le_iff_toNat_le, UInt8.toNat_and]
    exact Nat.and_le_right
  · exact h

theorem output_steps_le (n : Nat) {t : Timer} (h : t.output ≤ 0xF) : (steps n t).output ≤ 0xF := by
  induction n generalizing t with
  | zero => exact h
  | succ n ih => exact ih (output_step_le h)

variable {t : Timer} {period : Nat}

theorem Valid.clock (h : t.Valid period) (clocks : Nat) : (t.clock clocks).Valid period := by
  obtain ⟨hp, hlt, ho⟩ := h
  unfold Timer.clock
  split
  · obtain ⟨hp', he'⟩ := steps_keeps ((t.elapsed + clocks) / t.period)
      { t with elapsed := (t.elapsed + clocks) % t.period }
    refine ⟨hp'.trans hp, ?_, output_steps_le _ ho⟩
    rw [hp', he']
    exact Nat.mod_lt _ (Nat.zero_lt_of_lt hlt)
  · exact ⟨hp, hlt, ho⟩

theorem Valid.setEnabled (h : t.Valid period) (enabled : Bool) : (t.setEnabled enabled).Valid period := by
  unfold Timer.setEnabled
  split
  · exact ⟨h.1, h.2.1, UInt8.zero_le⟩
  · exact h

theorem Valid.readOutput (h : t.Valid period) : t.readOutput.2.Valid period := ⟨h.1, h.2.1, UInt8.zero_le⟩

end Timer

namespace Bus

def DevicesValid (b : Bus) : Prop := b.TimersValid ∧ b.dsp.Valid

theorem TimersValid.setTimer {b : Bus} (h : b.TimersValid) (i : Fin 3) {t : Timer} (ht : t.Valid (timerPeriods.get i)) :
    TimersValid { b with timers := b.timers.setIfInBounds i t } := by
  intro j
  simp only [Vector.get_eq_getElem, Vector.getElem_setIfInBounds]
  split
  next he =>
    obtain rfl : i = j := Fin.ext he
    exact ht
  next => exact h j

theorem TimersValid.writeControl {b : Bus} (h : b.TimersValid) (data : UInt8) :
    (b.writeControl data).TimersValid := by
  intro i
  simp only [Bus.writeControl, Vector.get_ofFn]
  exact (h i).setEnabled _

theorem DevicesValid.read {b : Bus} (h : b.DevicesValid) (addr : UInt16) : (b.read addr).2.DevicesValid := by
  unfold Bus.read
  split
  next i _ => exact ⟨h.1.setTimer i (h.1 i).readOutput, h.2⟩
  next => exact h

theorem DevicesValid.write {b : Bus} (h : b.DevicesValid) (addr : UInt16) (data : UInt8) :
    (b.write addr data).DevicesValid := by
  unfold Bus.write
  split
  case h_3 => exact ⟨h.1.writeControl data, h.2⟩
  case h_5 => exact ⟨h.1, h.2.write _ data⟩
  case h_7 i _ => exact ⟨h.1.setTimer i (h.1 i), h.2⟩
  all_goals exact h

theorem DevicesValid.clock {b : Bus} (h : b.DevicesValid) (clocks : Nat) : (b.clock clocks).DevicesValid := by
  refine ⟨fun i ↦ ?_, h.2.clock clocks b.ram⟩
  simp only [Bus.clock, Vector.get_map]
  exact (h.1 i).clock clocks

theorem DevicesValid.perform {α : Type} {b : Bus} (h : b.DevicesValid) (p : Access α) :
    (b.perform p).2.DevicesValid :=
  Access.run_invariant _ _ (fun addr _ h ↦ h.read addr) (fun addr data _ h ↦ h.write addr data) p b h

theorem powerOn_timersValid : ∀ i : Fin 3, (powerOnTimers.get i).Valid (timerPeriods.get i) := by decide

theorem reset_devicesValid (b : Bus) : b.reset.DevicesValid := ⟨powerOn_timersValid, Dsp.initial_valid⟩

theorem DevicesValid.writePort {b : Bus} (h : b.DevicesValid) (port : Nat) (data : UInt8) :
    (b.writePort port data).DevicesValid := h

theorem DevicesValid.mute {b : Bus} (h : b.DevicesValid) (mask : UInt8) : (b.mute mask).DevicesValid := h

theorem DevicesValid.clearEcho {b : Bus} (h : b.DevicesValid) : b.clearEcho.DevicesValid :=
  ⟨h.1, h.2.clearEcho b.ram⟩

end Bus

end SoundUnit
