import SoundUnit.Proofs.Checked.Bus
import SoundUnit.Proofs.Checked.Processor
import SoundUnit.Proofs.Machine.Consistency

namespace SoundUnit

open Checked

namespace Bus

def perform? {α : Type} (b : Bus) (p : Access (Option α)) : Option (α × Bus) := do
  let (result, b) ← p.run? (fun addr b ↦ b.read? addr) (fun addr data b ↦ b.write? addr data) b
  let value ← result
  return (value, b)

theorem perform?_lift {α : Type} (b : Bus) (e : Exec α) (r : Registers) :
    b.perform? (Attempt.lift e r) = some (b.perform (e r)) := by
  have hl := Access.run_bind (fun addr (b : Bus) ↦ b.read addr) (fun addr data b ↦ b.write addr data) (e r)
    (fun x ↦ .done (some x)) b
  unfold perform?
  rw [Access.run?_eq (fun addr b ↦ b.read?_eq addr) fun addr data b ↦ b.write?_eq addr data, Attempt.lift, OptionT.mk,
    hl]
  rfl

end Bus

namespace Core

def execute? (c : Core) : Option (Nat × Core) := do
  let ((clocks, registers), bus) ← c.bus.perform? (Attempt.instruction c.registers)
  return (clocks, { registers, bus })

def elapse? (c : Core) (clocks : Nat) : Option Core := do
  let bus ← c.bus.clock? clocks
  return { c with bus }

def step? (c : Core) : Option (Nat × Core) :=
  if c.registers.halted then do
    let c ← c.elapse? haltedClocks
    return (haltedClocks, c)
  else do
    let (clocks, c) ← c.execute?
    let c ← c.elapse? clocks
    return (clocks, c)

def start? (bus : Bus) : Option Core := do
  let (low, bus) ← bus.read? resetVector
  let (high, bus) ← bus.read? (resetVector + 1)
  return { registers := { pc := word high low }, bus }

theorem execute?_eq (c : Core) : c.execute? = some c.execute := by
  unfold execute?
  rw [Attempt.instruction_eq, Bus.perform?_lift]
  rfl

theorem elapse?_eq {c : Core} (h : c.bus.DevicesValid) {clocks : Nat} (hc : clocks ≤ maxStepClocks) :
    c.elapse? clocks = some (c.elapse clocks) := by
  unfold elapse?
  rw [Bus.clock?_eq h hc]
  rfl

theorem step?_eq {c : Core} (h : c.bus.DevicesValid) : c.step? = some c.step := by
  unfold step? step
  split
  · rw [elapse?_eq h (by decide)]
    rfl
  · rw [execute?_eq, Option.bind_eq_bind, Option.bind_some]
    dsimp only
    rw [elapse?_eq (devicesValid_execute h) c.execute_le]
    rfl

theorem start?_eq (bus : Bus) : start? bus = some (start bus) := by
  unfold start?
  rw [Bus.read?_eq, Option.bind_eq_bind, Option.bind_some]
  dsimp only
  rw [Bus.read?_eq]
  rfl

end Core

namespace Machine

inductive Action where
  | step
  | writeRegister (addr data : UInt8)
  | mute (mask : UInt8)
  | clearEcho
  | softReset

def writeRegister (m : Machine) (addr data : UInt8) : Machine :=
  m.withBus fun b ↦ { b with dsp := b.dsp.write addr data }

def act (m : Machine) : Action → Machine
  | .step => m.step.2
  | .writeRegister addr data => m.writeRegister addr data
  | .mute mask => m.mute mask
  | .clearEcho => m.clearEcho
  | .softReset => m.reset true

def acts (m : Machine) (actions : List Action) : Machine := actions.foldl act m

def release? (m : Machine) : Option Machine := do
  let due ← quotient m.target Dsp.sampleClocks
  if m.released < due then do
    let (frames, dsp) := m.core.bus.dsp.take (due - m.released)
    let released ← below sizeBound (m.released + frames.size)
    return { m with
      core := { m.core with bus := { m.core.bus with dsp } }
      released
      output := m.output ++ frames }
  else some m

def step? (m : Machine) : Option Machine := do
  let (clocks, core) ← m.core.step?
  let executed ← below sizeBound (m.executed + clocks)
  release? { m with core, executed, target := executed }

def act? (m : Machine) : Action → Option Machine
  | .step => m.step?
  | .writeRegister addr data => do
    let dsp ← m.core.bus.dsp.write? addr data
    return m.withBus fun b ↦ { b with dsp }
  | .mute mask => some (m.mute mask)
  | .clearEcho => do
    let bus ← m.core.bus.clearEcho?
    return m.withBus fun _ ↦ bus
  | .softReset => do
    let core ← Core.start? m.core.bus.reset
    return { m with core, executed := 0, target := 0, released := 0 }

def acts? (m : Machine) (actions : List Action) : Option Machine := actions.foldlM act? m

variable {m : Machine}

theorem release?_eq (h : m.target < sizeBound) : m.release? = some m.release := by
  unfold release?
  rw [quotient_of (show Dsp.sampleClocks ≠ 0 by decide), Option.bind_eq_bind, Option.bind_some]
  split
  next hlt =>
    have hs : m.dueFrames.size ≤ m.due := by
      rw [size_dueFrames]
      exact Nat.min_le_left ..
    have hd : m.target / Dsp.sampleClocks ≤ m.target := Nat.div_le_self ..
    have hb : below sizeBound (m.released + m.dueFrames.size) = some (m.released + m.dueFrames.size) := by
      unfold due at hs
      exact below_of (by omega)
    change (below sizeBound (m.released + m.dueFrames.size)).bind _ = _
    rw [hb]
    rfl
  next hle =>
    have hz : m.due = 0 := by
      unfold due
      omega
    rw [release_of_settled (.inl hz)]

theorem step?_eq (h : m.core.bus.DevicesValid) (hc : m.executed + m.core.step.1 < sizeBound) :
    m.step? = some m.step.2 := by
  unfold step?
  rw [Core.step?_eq h, Option.bind_eq_bind, Option.bind_some]
  dsimp only
  rw [below_of hc, Option.bind_eq_bind, Option.bind_some, release?_eq hc]
  rfl

theorem devicesValid_act (h : m.core.bus.DevicesValid) (a : Action) : (m.act a).core.bus.DevicesValid := by
  cases a with
  | step => exact devicesValid_operate h .step
  | writeRegister addr data => exact ⟨h.1, h.2.write addr data⟩
  | mute mask => exact h.mute mask
  | clearEcho => exact h.clearEcho
  | softReset => exact Bus.reset_devicesValid m.core.bus

theorem act?_eq (h : m.core.bus.DevicesValid) (hc : m.executed + Core.maxStepClocks < sizeBound) (a : Action) :
    m.act? a = some (m.act a) := by
  cases a with
  | step => exact step?_eq h (Nat.lt_of_le_of_lt (Nat.add_le_add_left m.core.step_le _) hc)
  | writeRegister addr data =>
    simp only [act?, Dsp.write?_eq, Option.bind_eq_bind, Option.bind_some]
    rfl
  | mute mask => rfl
  | clearEcho =>
    simp only [act?, Bus.clearEcho?_eq, Option.bind_eq_bind, Option.bind_some]
    rfl
  | softReset =>
    simp only [act?, Core.start?_eq, Option.bind_eq_bind, Option.bind_some]
    rfl

theorem executed_act_le (m : Machine) (a : Action) : (m.act a).executed ≤ m.executed + Core.maxStepClocks := by
  cases a with
  | step => exact Nat.add_le_add_left m.core.step_le _
  | softReset => exact Nat.zero_le _
  | _ => exact Nat.le_add_right ..

theorem executed_acts_le (m : Machine) (actions : List Action) :
    (m.acts actions).executed ≤ m.executed + actions.length * Core.maxStepClocks := by
  induction actions generalizing m with
  | nil => exact Nat.le_add_right ..
  | cons a actions ih =>
    have ha := m.executed_act_le a
    have hr := ih (m.act a)
    change ((m.act a).acts actions).executed ≤ _
    rw [List.length_cons, Nat.succ_mul]
    omega

/-- No operation of any run fails, and after each one the devices are in range again, as long as the count of executed
clocks has room for one more step before each of them. -/
theorem acts_succeed (h : m.core.bus.DevicesValid) (actions : List Action)
    (hc : ∀ n < actions.length, (m.acts (actions.take n)).executed + Core.maxStepClocks < 2 ^ 64) (n : Nat) :
    m.acts? (actions.take n) = some (m.acts (actions.take n)) ∧
      (m.acts (actions.take n)).core.bus.TimersValid ∧ (m.acts (actions.take n)).core.bus.dsp.Valid := by
  induction actions generalizing m n with
  | nil =>
    rw [List.take_nil]
    exact ⟨rfl, h⟩
  | cons a actions ih =>
    cases n with
    | zero => exact ⟨rfl, h⟩
    | succ n =>
      have ha := act?_eq h (hc 0 (Nat.zero_lt_succ _)) a
      obtain ⟨hr, hv⟩ := ih (devicesValid_act h a) (fun k hk ↦ hc (k + 1) (Nat.succ_lt_succ hk)) n
      refine ⟨?_, hv⟩
      change (m.act? a).bind (fun m ↦ m.acts? (actions.take n)) = _
      rw [ha, Option.bind_some, hr]
      rfl

theorem acts_succeed_initial :
    let actions : List Action := [.step, .writeRegister 0x4C 0xFF, .mute 3, .clearEcho, .step, .softReset]
    initial.core.bus.DevicesValid ∧
      (∀ n < 6, (initial.acts (actions.take n)).executed + Core.maxStepClocks < 2 ^ 64) ∧
      initial.acts? actions = some (initial.acts actions) ∧
      (initial.acts actions).core.bus.TimersValid ∧ (initial.acts actions).core.bus.dsp.Valid := by
  intro actions
  have hd : initial.core.bus.DevicesValid := ⟨Bus.powerOn_timersValid, Dsp.initial_valid⟩
  have hc : ∀ n < 6, (initial.acts (actions.take n)).executed + Core.maxStepClocks < 2 ^ 64 := by
    intro n hn
    have he := initial.executed_acts_le (actions.take n)
    have hz : initial.executed = 0 := rfl
    have hl : (actions.take n).length ≤ n := List.length_take_le n actions
    unfold Core.maxStepClocks at he ⊢
    omega
  exact ⟨hd, hc, acts_succeed hd actions hc 6⟩

end Machine

end SoundUnit
