import SoundUnit.Proofs.Processor.Clocks
import SoundUnit.Proofs.Validity.Bus

namespace SoundUnit

/-- What takes reads to reads and writes to writes takes computations to computations. -/
theorem Access.run_map {α σ τ : Type} {onRead : UInt16 → σ → UInt8 × σ} {onWrite : UInt16 → UInt8 → σ → σ}
    {onRead' : UInt16 → τ → UInt8 × τ} {onWrite' : UInt16 → UInt8 → τ → τ} {f : σ → τ}
    (hr : ∀ addr s, onRead' addr (f s) = ((onRead addr s).1, f (onRead addr s).2))
    (hw : ∀ addr data s, onWrite' addr data (f s) = f (onWrite addr data s)) (p : Access α) (s : σ) :
    p.run onRead' onWrite' (f s) = ((p.run onRead onWrite s).1, f (p.run onRead onWrite s).2) := by
  induction p generalizing s with
  | done value => rfl
  | read addr next ih =>
    simp only [run, hr]
    exact ih _ _
  | write addr data next ih =>
    simp only [run, hw]
    exact ih _

theorem Dsp.write_reclock (d : Dsp) (addr data : UInt8) (e : Nat) (q : Array Frame) :
    (d.reclock e q).write addr data = (d.write addr data).reclock e q := by
  unfold write
  split
  · cases DspRegister.ofAddress addr with
    | voice v r => rfl
    | tap i => rfl
    | global r => cases r <;> rfl
  · rfl

namespace Bus

def reclock (b : Bus) (e : Nat) (q : Array Frame) : Bus := { b with dsp := b.dsp.reclock e q }

theorem reclock_self (b : Bus) : b.reclock b.dsp.elapsed b.dsp.frames = b := rfl

theorem peek_reclock (b : Bus) (addr : UInt16) (e : Nat) (q : Array Frame) :
    (b.reclock e q).peek addr = b.peek addr := by
  unfold peek
  cases Location.ofAddress addr <;> rfl

theorem read_reclock (addr : UInt16) (b : Bus) (e : Nat) (q : Array Frame) :
    (b.reclock e q).read addr = ((b.read addr).1, (b.read addr).2.reclock e q) := by
  unfold read
  rw [peek_reclock]
  cases Location.ofAddress addr <;> rfl

theorem write_reclock (addr : UInt16) (data : UInt8) (b : Bus) (e : Nat) (q : Array Frame) :
    (b.reclock e q).write addr data = (b.write addr data).reclock e q := by
  have h := b.dsp.write_reclock b.dspAddress data e q
  unfold write
  cases Location.ofAddress addr
  case dspData => exact congrArg (fun dsp ↦ { b with dsp }) h
  all_goals rfl

theorem perform_reclock {α : Type} (b : Bus) (p : Access α) (e : Nat) (q : Array Frame) :
    (b.reclock e q).perform p = ((b.perform p).1, (b.perform p).2.reclock e q) :=
  Access.run_map (f := fun b : Bus ↦ b.reclock e q) (fun addr b ↦ read_reclock addr b e q)
    (fun addr data b ↦ write_reclock addr data b e q) p b

theorem perform_keeps_clock {α : Type} (b : Bus) (p : Access α) :
    (b.perform p).2.dsp.elapsed = b.dsp.elapsed ∧ (b.perform p).2.dsp.frames = b.dsp.frames := by
  have h := perform_reclock b p b.dsp.elapsed b.dsp.frames
  rw [reclock_self] at h
  generalize b.perform p = r at h ⊢
  have hb : r.2 = r.2.reclock b.dsp.elapsed b.dsp.frames := congrArg Prod.snd h
  rw [hb]
  exact ⟨rfl, rfl⟩

def enqueue (b : Bus) (q : Array Frame) : Bus := { b with dsp := b.dsp.enqueue q }

theorem perform_enqueue {α : Type} (b : Bus) (p : Access α) (q : Array Frame) :
    (b.enqueue q).perform p = ((b.perform p).1, (b.perform p).2.enqueue q) := by
  obtain ⟨he, hf⟩ := perform_keeps_clock b p
  have h : (b.perform p).2.enqueue q = (b.perform p).2.reclock b.dsp.elapsed (q ++ b.dsp.frames) := by
    rw [← he, ← hf]
    rfl
  rw [h]
  exact perform_reclock b p _ _

theorem clock_eq (b : Bus) (clocks : Nat) :
    b.clock clocks = { b with
      timers := b.timers.map (·.clock clocks)
      dsp := (b.dsp.clock clocks b.ram).1
      ram := (b.dsp.clock clocks b.ram).2 } := rfl

theorem clock_enqueue (b : Bus) (clocks : Nat) (q : Array Frame) :
    (b.enqueue q).clock clocks = (b.clock clocks).enqueue q := by
  rw [clock_eq, clock_eq]
  simp only [enqueue, Dsp.clock_enqueue]

end Bus

namespace Core

def enqueue (c : Core) (q : Array Frame) : Core := { c with bus := c.bus.enqueue q }

theorem execute_eq (c : Core) {r : (Nat × Registers) × Bus}
    (h : c.bus.perform (Exec.instruction c.registers) = r) :
    c.execute = (r.1.1, { registers := r.1.2, bus := r.2 }) := by
  unfold execute
  rw [h]

theorem step_of_halted {c : Core} (h : c.registers.halted) : c.step = (haltedClocks, c.elapse haltedClocks) :=
  if_pos h

theorem step_of_running {c : Core} (h : ¬ c.registers.halted) :
    c.step = (c.execute.1, c.execute.2.elapse c.execute.1) :=
  if_neg h

theorem execute_enqueue (c : Core) (q : Array Frame) :
    (c.enqueue q).execute = (c.execute.1, c.execute.2.enqueue q) := by
  have h := c.bus.perform_enqueue (Exec.instruction c.registers) q
  generalize hr : c.bus.perform (Exec.instruction c.registers) = r at h
  rw [execute_eq c hr, execute_eq (c.enqueue q) h]
  rfl

theorem elapse_enqueue (c : Core) (clocks : Nat) (q : Array Frame) :
    (c.enqueue q).elapse clocks = (c.elapse clocks).enqueue q :=
  congrArg (Core.mk c.registers) (c.bus.clock_enqueue clocks q)

theorem step_enqueue (c : Core) (q : Array Frame) : (c.enqueue q).step = (c.step.1, c.step.2.enqueue q) := by
  by_cases h : c.registers.halted
  · have h' : (c.enqueue q).registers.halted := h
    rw [step_of_halted h, step_of_halted h', elapse_enqueue]
  · have h' : ¬ (c.enqueue q).registers.halted := h
    rw [step_of_running h, step_of_running h', execute_enqueue, elapse_enqueue]

def backlog (c : Core) : Nat := c.bus.dsp.backlog

theorem backlog_elapse (c : Core) (clocks : Nat) : (c.elapse clocks).backlog = c.backlog + clocks :=
  c.bus.dsp.backlog_clock clocks c.bus.ram

theorem backlog_execute (c : Core) : c.execute.2.backlog = c.backlog := by
  obtain ⟨he, hf⟩ := c.bus.perform_keeps_clock (Exec.instruction c.registers)
  generalize hr : c.bus.perform (Exec.instruction c.registers) = r at he hf
  rw [execute_eq c hr]
  simp only [backlog, Dsp.backlog, he, hf]

theorem backlog_step (c : Core) : c.step.2.backlog = c.backlog + c.step.1 := by
  by_cases h : c.registers.halted
  · rw [step_of_halted h, backlog_elapse]
  · rw [step_of_running h, backlog_elapse, backlog_execute]

theorem devicesValid_execute {c : Core} (h : c.bus.DevicesValid) : c.execute.2.bus.DevicesValid := by
  have hp := h.perform (Exec.instruction c.registers)
  generalize hr : c.bus.perform (Exec.instruction c.registers) = r at hp
  rw [execute_eq c hr]
  exact hp

theorem devicesValid_step {c : Core} (h : c.bus.DevicesValid) : c.step.2.bus.DevicesValid := by
  by_cases hh : c.registers.halted
  · rw [step_of_halted hh]
    exact h.clock _
  · rw [step_of_running hh]
    exact (devicesValid_execute h).clock _

section Run

variable {target : Nat}

/-- What holds at the target, and holds before a step if it holds after it, holds all along a run. -/
theorem run_induction (target : Nat) {P : Nat → Core → Prop} (reached : ∀ executed c, target ≤ executed → P executed c)
    (step : ∀ executed c, executed < target → P (executed + c.step.1) c.step.2 → P executed c) (executed : Nat)
    (c : Core) : P executed c := by
  generalize hn : target - executed = n
  induction n using Nat.strongRecOn generalizing executed c with
  | ind n ih =>
    rcases Nat.lt_or_ge executed target with hlt | hle
    · have h2 := c.two_le_step
      exact step executed c hlt (ih _ (by omega) _ _ rfl)
    · exact reached executed c hle

/-- What every step before the target keeps, a run to the target keeps. -/
theorem runTo_invariant {P : Nat → Core → Prop}
    (hs : ∀ executed c, executed < target → P executed c → P (executed + c.step.1) c.step.2)
    {executed : Nat} {c : Core} (h : P executed c) :
    P (c.runTo target executed).1 (c.runTo target executed).2 := by
  induction executed, c using run_induction target with
  | reached executed c hle =>
    rw [runTo_of_le hle]
    exact h
  | step executed c hlt ih =>
    rw [runTo_of_lt hlt]
    exact ih (hs executed c hlt h)

theorem target_le_runTo (executed : Nat) (c : Core) : target ≤ (c.runTo target executed).1 := by
  induction executed, c using run_induction target with
  | reached executed c hle =>
    rw [runTo_of_le hle]
    exact hle
  | step executed c hlt ih =>
    rw [runTo_of_lt hlt]
    exact ih

theorem executed_le_runTo (executed : Nat) (c : Core) : executed ≤ (c.runTo target executed).1 :=
  runTo_invariant (P := fun n _ ↦ executed ≤ n) (fun _ _ _ h ↦ Nat.le_add_right_of_le h) (Nat.le_refl _)

theorem runTo_lt {executed : Nat} (h : executed < target + maxStepClocks) (c : Core) :
    (c.runTo target executed).1 < target + maxStepClocks := by
  refine runTo_invariant (P := fun n _ ↦ n < target + maxStepClocks) (fun n c hn _ ↦ ?_) h
  have hc := c.step_le
  omega

theorem devicesValid_runTo (executed : Nat) {c : Core} (h : c.bus.DevicesValid) :
    (c.runTo target executed).2.bus.DevicesValid :=
  runTo_invariant (P := fun _ c ↦ c.bus.DevicesValid) (fun _ _ _ h ↦ devicesValid_step h) h

theorem backlog_runTo (target executed : Nat) (c : Core) :
    (c.runTo target executed).2.backlog + executed = c.backlog + (c.runTo target executed).1 := by
  refine runTo_invariant (P := fun n c' ↦ c'.backlog + executed = c.backlog + n) (fun n c' _ h ↦ ?_) rfl
  rw [backlog_step]
  omega

theorem runTo_runTo {target' : Nat} (h : target ≤ target') (executed : Nat) (c : Core) :
    (c.runTo target executed).2.runTo target' (c.runTo target executed).1 = c.runTo target' executed := by
  refine runTo_invariant (P := fun n c' ↦ c'.runTo target' n = c.runTo target' executed) (fun n c' hn hc ↦ ?_) rfl
  rw [← hc, ← runTo_of_lt (Nat.lt_of_lt_of_le hn h)]

theorem runTo_enqueue (target executed : Nat) (c : Core) (q : Array Frame) :
    (c.enqueue q).runTo target executed =
      ((c.runTo target executed).1, (c.runTo target executed).2.enqueue q) := by
  -- As an invariant of the run without the frames: the run with them has come to the same place.
  rw [← runTo_of_le (target_le_runTo executed c)]
  refine runTo_invariant (P := fun n c' ↦ (c.enqueue q).runTo target executed = (c'.enqueue q).runTo target n)
    (fun n c' hn hc ↦ ?_) rfl
  rw [hc, runTo_of_lt hn, step_enqueue]

end Run

end Core

end SoundUnit
