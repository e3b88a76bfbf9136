import SoundUnit.Proofs.Bus.Passage
import SoundUnit.Proofs.Machine.Consistency
import SoundUnit.Proofs.Machine.Ports
import SoundUnit.Proofs.Machine.Restart
import SoundUnit.Proofs.Machine.Stepping
import SoundUnit.Proofs.Processor.Halting

namespace SoundUnit

namespace Core

variable {c : Core}

theorem enqueue_empty (c : Core) : c.enqueue #[] = c := by
  simp only [enqueue, Bus.enqueue, Dsp.enqueue, Dsp.reclock, Array.empty_append]

theorem enqueue_enqueue (c : Core) (q q' : Array Frame) : (c.enqueue q').enqueue q = c.enqueue (q ++ q') := by
  simp only [enqueue, Bus.enqueue, Dsp.enqueue, Dsp.reclock, Array.append_assoc]

theorem elapse_zero (h : c.bus.DevicesValid) : c.elapse 0 = c := congrArg (mk c.registers) h.clock_zero

theorem elapse_elapse (h : c.bus.DevicesValid) (m n : Nat) : (c.elapse m).elapse n = c.elapse (m + n) :=
  congrArg (mk c.registers) (h.1.clock_clock m n)

theorem steps_of_halted (h : c.registers.halted) (hd : c.bus.DevicesValid) (n executed : Nat) :
    c.steps n executed = (executed + 2 * n, c.elapse (2 * n)) := by
  induction n generalizing executed c with
  | zero => rw [steps, Nat.mul_zero, elapse_zero hd, Nat.add_zero]
  | succ n ih =>
    have hn : haltedClocks + 2 * n = 2 * (n + 1) := by
      unfold haltedClocks
      omega
    rw [steps, step_of_halted h, ih (c := c.elapse haltedClocks) h (hd.clock _), elapse_elapse hd, Nat.add_assoc, hn]

theorem eq_pass_of_mem_runEvents (target executed : Nat) (c : Core) :
    c.registers.halted → ∀ e ∈ c.runEvents target executed, e = .pass haltedClocks := by
  induction executed, c using run_induction target with
  | reached executed c hle =>
    intro _ e he
    rw [runEvents, if_neg (Nat.not_lt.2 hle)] at he
    exact absurd he List.not_mem_nil
  | step executed c hlt ih =>
    intro h e he
    rw [runEvents, if_pos hlt, stepEvents, if_pos h, step_of_halted h] at he
    rw [step_of_halted h] at ih
    rcases List.mem_append.1 he with hp | hr
    · exact List.mem_singleton.1 hp
    · exact ih h e hr

/-- What the processor has set, and what it has told the host. -/
def settings (c : Core) : Registers × UInt8 × UInt8 × Vector UInt8 4 :=
  (c.registers, c.bus.control, c.bus.dspAddress, c.bus.portsOut)

end Core

/-- The host writes to a port, or time passes in a step, or the host changes the memory or the sound generator. -/
def BusEvent.Idle (e : BusEvent) : Prop :=
  (∃ port data, e = .hostWrite port data) ∨ e = .pass Core.haltedClocks ∨ e = .change

namespace HostOperation

/-- The host puts the processor back to its start. -/
def Restarts : HostOperation → Prop
  | create .. | reset _ => True
  | _ => False

/-- The host at most lets time pass, talks to the ports and takes samples. -/
def Waits : HostOperation → Prop
  | writePort .. | run _ | skip _ | step | read _ => True
  | _ => False

/-- What the host itself changes behind the bus. -/
def onBus : HostOperation → Bus → Bus
  | writePort port data, b => b.writePort port data
  | clearEcho, b => b.clearEcho
  | mute mask, b => b.mute mask
  | _, b => b

variable {o : HostOperation}

theorem not_restarts (h : o.Waits) : ¬ o.Restarts := by
  cases o <;> simp_all [Waits, Restarts]

theorem onBus_clock (h : o.Waits) (b : Bus) (clocks : Nat) : o.onBus (b.clock clocks) = (o.onBus b).clock clocks := by
  cases o with
  | create | reset | clearEcho | mute => exact h.elim
  | _ => rfl

theorem onBus_enqueue (o : HostOperation) (b : Bus) (q : Array Frame) :
    o.onBus (b.enqueue q) = (o.onBus b).enqueue q := by
  cases o <;> rfl

theorem devicesValid_onBus {b : Bus} (h : b.DevicesValid) (o : HostOperation) : (o.onBus b).DevicesValid := by
  cases o with
  | writePort port data => exact h.writePort port data
  | clearEcho => exact h.clearEcho
  | mute mask => exact h.mute mask
  | _ => exact h

end HostOperation

namespace Machine

/-- The machine has come from `m` by `n` steps of two clocks, in which nothing has happened but that time has passed in
the devices of `b`. The samples that have been released meanwhile are no more in the sound generator. -/
structure Waited (m : Machine) (b : Bus) (n : Nat) (m' : Machine) : Prop where
  executed : m'.executed = m.executed + 2 * n
  core : ∃ q : Array Frame, m'.released = m.released + q.size ∧
    m'.core.enqueue q = { registers := m.core.registers, bus := b.clock (2 * n) }

variable {m m' u : Machine} {b : Bus} {n k : Nat}

theorem Waited.release (he : u.executed = m.executed + 2 * n) (hr : u.released = m.released)
    (hc : u.core = m.core.elapse (2 * n)) : m.Waited m.core.bus n u.release where
  executed := he
  core := by
    have hq : u.release.core.enqueue u.dueFrames = u.core := congrArg Machine.core u.enqueue_withoutDue
    have hs : u.release.released = u.released + u.dueFrames.size := rfl
    refine ⟨u.dueFrames, ?_, hq.trans hc⟩
    rw [hs, hr]

theorem Waited.refl (hd : b.DevicesValid) (he : m'.executed = m.executed) (hr : m'.released = m.released)
    (hc : m'.core = { registers := m.core.registers, bus := b }) : m.Waited b 0 m' where
  executed := he
  core := by
    refine ⟨#[], hr, ?_⟩
    rw [Core.enqueue_empty, hc, Nat.mul_zero, hd.clock_zero]

theorem waited_run (h : m.core.registers.halted) (hd : m.core.bus.DevicesValid) (clocks : Nat) :
    ∃ n, m.Waited m.core.bus n (m.run clocks) := by
  have hr := (m.core.runTo_eq_steps (m.target + clocks) m.executed).1
  rw [Core.steps_of_halted h hd] at hr
  exact ⟨_, .release (u := m.advance clocks) (congrArg Prod.fst hr) rfl (congrArg Prod.snd hr)⟩

/-- Whatever the host does but to restart the machine, it comes to some steps of two clocks after what the host has
changed. -/
theorem waited_operate (h : m.core.registers.halted) (hd : m.core.bus.DevicesValid) {o : HostOperation}
    (ho : ¬ o.Restarts) : ∃ n, m.Waited (o.onBus m.core.bus) n (m.operate o) := by
  have hb := HostOperation.devicesValid_onBus hd o
  cases o with
  | create | reset => exact absurd trivial ho
  | run clocks => exact waited_run h hd clocks
  | skip clocks =>
    obtain ⟨n, hw⟩ := waited_run h hd clocks
    exact ⟨n, hw.executed, hw.core⟩
  | step =>
    have hs := Core.step_of_halted h
    refine ⟨1, .release (u := m.advanceStep) ?_ rfl (congrArg Prod.snd hs)⟩
    exact congrArg (m.executed + ·.1) hs
  | writePort | read | clearEcho | mute => exact ⟨0, .refl hb rfl rfl rfl⟩

theorem Waited.settings (h : m.Waited b n m') :
    m'.core.settings = Core.settings { registers := m.core.registers, bus := b } := by
  obtain ⟨q, -, hc⟩ := h.core
  have hs : (m'.core.enqueue q).settings = m'.core.settings := rfl
  rw [← hs, hc]
  rfl

theorem settings_operate (h : m.core.registers.halted) (hd : m.core.bus.DevicesValid) {o : HostOperation}
    (ho : ¬ o.Restarts) : (m.operate o).core.settings = m.core.settings := by
  obtain ⟨n, hw⟩ := waited_operate h hd ho
  rw [hw.settings]
  cases o <;> rfl

theorem halted_operate (h : m.core.registers.halted) (hd : m.core.bus.DevicesValid) {o : HostOperation}
    (ho : ¬ o.Restarts) : (m.operate o).core.registers.halted := by
  have hr : (m.operate o).core.registers = m.core.registers := congrArg Prod.fst (settings_operate h hd ho)
  rw [hr]
  exact h

theorem Waited.operate (hw : m.Waited b n u) (hb : b.DevicesValid) (hu : u.core.registers.halted)
    (hd : u.core.bus.DevicesValid) {o : HostOperation} (ho : o.Waits) :
    ∃ k, m.Waited (o.onBus b) k (u.operate o) := by
  obtain ⟨k, hk⟩ := waited_operate hu hd (HostOperation.not_restarts ho)
  obtain ⟨q, hr, hc⟩ := hw.core
  obtain ⟨q', hr', hc'⟩ := hk.core
  have he := hw.executed
  have he' := hk.executed
  obtain ⟨hreg, hbus⟩ := Core.mk.inj hc
  have hs : (q ++ q').size = q.size + q'.size := Array.size_append
  refine ⟨n + k, by omega, q ++ q', by omega, ?_⟩
  calc (u.operate o).core.enqueue (q ++ q')
      = Core.enqueue { registers := u.core.registers, bus := (o.onBus u.core.bus).clock (2 * k) } q := by
        rw [← Core.enqueue_enqueue, hc']
    _ = { registers := u.core.registers, bus := (o.onBus (u.core.bus.enqueue q)).clock (2 * k) } := by
        rw [HostOperation.onBus_enqueue, Bus.clock_enqueue]
        rfl
    _ = { registers := m.core.registers, bus := (o.onBus b).clock (2 * (n + k)) } := by
        rw [hreg, hbus, HostOperation.onBus_clock ho, (HostOperation.devicesValid_onBus hb o).1.clock_clock, Nat.mul_add]

theorem Waited.foldl (hw : m.Waited b n u) (hb : b.DevicesValid) (hu : u.core.registers.halted)
    (hd : u.core.bus.DevicesValid) {operations : List HostOperation} (ho : ∀ o ∈ operations, o.Waits) :
    ∃ k, m.Waited (operations.foldl (fun b o ↦ o.onBus b) b) k (operations.foldl Machine.operate u) := by
  induction operations generalizing n b u with
  | nil => exact ⟨n, hw⟩
  | cons o operations ih =>
    obtain ⟨hfirst, hrest⟩ := List.forall_mem_cons.1 ho
    obtain ⟨k, hk⟩ := hw.operate hb hu hd hfirst
    have hn := HostOperation.not_restarts hfirst
    exact ih hk (HostOperation.devicesValid_onBus hb o) (halted_operate hu hd hn) (devicesValid_operate hd o) hrest

section Log

open BusEvent (latest toProcessor)

theorem idle_operationEvents (h : m.core.registers.halted) {o : HostOperation} (ho : ¬ o.Restarts) :
    ∀ e ∈ m.operationEvents o, e.Idle := by
  have hrun : ∀ clocks, ∀ e ∈ m.core.runEvents (m.target + clocks) m.executed ++ [.change], e.Idle := by
    intro clocks e he
    rcases List.mem_append.1 he with hr | hc
    · exact .inr (.inl (Core.eq_pass_of_mem_runEvents _ _ _ h e hr))
    · exact .inr (.inr (List.mem_singleton.1 hc))
  cases o with
  | create | reset => exact absurd trivial ho
  | run clocks | skip clocks => exact hrun clocks
  | step => simp [operationEvents, Core.stepEvents, h, BusEvent.Idle]
  | writePort | read | clearEcho | mute => simp [operationEvents, BusEvent.Idle]

variable {operations : List HostOperation}

theorem idle_log (h : m.core.registers.halted) (hd : m.core.bus.DevicesValid) (ho : ∀ o ∈ operations, ¬ o.Restarts) :
    ∀ e ∈ m.log (operations.map .operate), e.Idle := by
  induction operations generalizing m with
  | nil =>
    intro e he
    exact absurd he List.not_mem_nil
  | cons o operations ih =>
    obtain ⟨hfirst, hrest⟩ := List.forall_mem_cons.1 ho
    intro e he
    rcases List.mem_append.1 he with he | he
    · exact idle_operationEvents h hfirst e he
    · exact ih (halted_operate h hd hfirst) (devicesValid_operate hd o) hrest e he

theorem settings_foldl (h : m.core.registers.halted) (hd : m.core.bus.DevicesValid)
    (ho : ∀ o ∈ operations, ¬ o.Restarts) : (operations.foldl operate m).core.settings = m.core.settings := by
  induction operations generalizing m with
  | nil => rfl
  | cons o operations ih =>
    obtain ⟨hfirst, hrest⟩ := List.forall_mem_cons.1 ho
    have hi := ih (halted_operate h hd hfirst) (devicesValid_operate hd o) hrest
    exact hi.trans (settings_operate h hd hfirst)

theorem processor_foldl (h : m.core.registers.halted) (hd : m.core.bus.DevicesValid)
    (ho : ∀ o ∈ operations, ¬ o.Restarts) :
    let m' := operations.foldl operate m
    m'.core.registers = m.core.registers ∧ m'.core.bus.control = m.core.bus.control ∧
      m'.core.bus.dspAddress = m.core.bus.dspAddress ∧ m'.core.bus.portsOut = m.core.bus.portsOut := by
  intro m'
  have hs : m'.core.settings = m.core.settings := settings_foldl h hd ho
  simpa only [Core.settings, Prod.mk.injEq] using hs

theorem waited_foldl (h : m.core.registers.halted) (hd : m.core.bus.DevicesValid) (ho : ∀ o ∈ operations, o.Waits) :
    ∃ n, m.Waited (operations.foldl (fun b o ↦ o.onBus b) m.core.bus) n (operations.foldl operate m) := by
  have hrefl : m.Waited m.core.bus 0 m := .refl hd rfl rfl rfl
  exact hrefl.foldl hd h hd ho

theorem portsIn_foldl (m : Machine) (operations : List HostOperation) (i : Fin 4) :
    (operations.foldl operate m).core.bus.portsIn.get i =
      latest (toProcessor i) (m.core.bus.portsIn.get i) (m.log (operations.map .operate)) := by
  have hh := m.history_log (operations.map .operate)
  have hf : m.interactAll (operations.map .operate) = operations.foldl operate m := List.foldl_map
  rw [hf] at hh
  exact hh.portsIn i

end Log

theorem released_foldl (hm : m.Consistent) (operations : List HostOperation) :
    let m' := operations.foldl operate m
    m'.released = m'.target / Dsp.sampleClocks := by
  intro m'
  have hm' : m'.Consistent := List.foldlRecOn operations operate hm fun _ hm o _ ↦ hm.operate o
  exact hm'.released

theorem halted_reset (m : Machine) (soft : Bool) : (m.reset soft).core.registers.halted = false := by
  cases soft <;> rfl

theorem running_operate_iff (h : m.core.registers.halted) (hd : m.core.bus.DevicesValid) (o : HostOperation) :
    (m.operate o).core.registers.halted = false ↔
      (∃ soft, o = .reset soft) ∨
        ∃ bootImage ramImage fresh, o = .create bootImage ramImage ∧ create bootImage ramImage = .ok fresh := by
  by_cases ho : o.Restarts
  · cases o with
    | create bootImage ramImage =>
      cases hc : Machine.create bootImage ramImage with
      | error failure =>
        have hm : m.operate (.create bootImage ramImage) = m := by
          simp only [operate, hc]
          rfl
        simp [hm, h, hc]
      | ok fresh =>
        obtain ⟨rom, ram, rfl, -⟩ := create_eq_ok hc
        have hm : m.operate (.create bootImage ramImage) = start rom ram ramImage := by
          simp only [operate, hc]
          rfl
        simp [hm, hc, start, Core.start]
    | reset soft => simp [operate, halted_reset]
    | _ => exact ho.elim
  · have hk := halted_operate h hd ho
    refine iff_of_false (by simp [hk]) ?_
    rintro (⟨soft, rfl⟩ | ⟨bootImage, ramImage, fresh, rfl, -⟩)
    · exact ho trivial
    · exact ho trivial

theorem running_restore_iff (h : m.core.registers.halted) (bytes : List UInt8) :
    (m.restore bytes).core.registers.halted = false ↔
      ∃ loaded, load bytes = .ok loaded ∧ loaded.core.registers.halted = false := by
  cases hl : load bytes with
  | error failure => simp [restore, hl, Except.toOption, h]
  | ok loaded => simp [restore, hl, Except.toOption]

/-- A step halts the processor if it executes one of two opcodes, and not otherwise. From then on steps are two clocks
of time each, so `n` of them do what `2 * n` clocks at once do. Whatever else the host does, but for restarts and
loading, the registers and what the processor has set at the bus stay, there are no reads and writes, and the ports
show what the host has written last. The samples are released as time is asked for, if the counts of time agreed at
first, as they do in every machine that has only loaded what machines save. Unless the host changes the memory or the
sound generator, all that happens to the devices is one stretch of time after the writes to the ports. Only a reset, a
new machine and a loaded one get the processor going again. -/
theorem halted_waits (h : m.Reachable) (hh : m.core.registers.halted) :
    (∀ c : Core, c.step.2.registers.halted ↔
        c.registers.halted ∨ c.bus.peek c.registers.pc = 0xEF ∨ c.bus.peek c.registers.pc = 0xFF) ∧
      (∀ n executed, m.core.steps n executed =
        (executed + 2 * n, { registers := m.core.registers, bus := m.core.bus.clock (2 * n) })) ∧
      (∀ operations : List HostOperation, (∀ o ∈ operations, ¬ o.Restarts) →
        let m' := operations.foldl operate m
        let log := m.log (operations.map .operate)
        m'.core.registers = m.core.registers ∧ m'.core.bus.control = m.core.bus.control ∧
          m'.core.bus.dspAddress = m.core.bus.dspAddress ∧ m'.core.bus.portsOut = m.core.bus.portsOut ∧
          (∀ e ∈ log, e.Idle) ∧
          (∀ i, m'.core.bus.portsIn.get i =
            BusEvent.latest (BusEvent.toProcessor i) (m.core.bus.portsIn.get i) log) ∧
          (m.Consistent → m'.released = m'.target / Dsp.sampleClocks) ∧
          ((∀ o ∈ operations, o.Waits) →
            ∃ n, m.Waited (operations.foldl (fun b o ↦ o.onBus b) m.core.bus) n m')) ∧
      (∀ o, (m.operate o).core.registers.halted = false ↔
        (∃ soft, o = .reset soft) ∨
          ∃ bootImage ramImage fresh, o = .create bootImage ramImage ∧ create bootImage ramImage = .ok fresh) ∧
      ∀ bytes, (m.restore bytes).core.registers.halted = false ↔
        ∃ loaded, load bytes = .ok loaded ∧ loaded.core.registers.halted = false := by
  have hd := h.devicesValid
  refine ⟨fun c ↦ c.halted_step_iff, Core.steps_of_halted hh hd, ?_, running_operate_iff hh hd, running_restore_iff hh⟩
  intro operations ho m' log
  obtain ⟨hr, hc, ha, hp⟩ := processor_foldl hh hd ho
  exact ⟨hr, hc, ha, hp, idle_log hh hd ho, m.portsIn_foldl operations, fun hm ↦ released_foldl hm operations,
    waited_foldl hh hd⟩

def sleepRom : BootRom where
  bytes := ⟨Array.replicate 62 0xEF ++ #[0xC0, 0xFF]⟩
  size_eq := rfl

def sleeper : Machine := start sleepRom .zero (some Ram.zero.bytes)

theorem halted_sleeper : sleeper.core.step.2.registers = { pc := 0xFFC1, halted := true } := by
  have hc : sleeper.core = { registers := { pc := 0xFFC0 }, bus := { ram := .zero, bootRom := sleepRom } } :=
    Core.start_eq .zero sleepRom
  have hp : sleeper.core.bus.peek sleeper.core.registers.pc = 0xEF := by
    rw [hc]
    rfl
  have hh : ¬ sleeper.core.registers.halted := by
    rw [hc]
    decide
  have he : sleeper.core.execute.2.registers = { pc := 0xFFC1, halted := true } := by
    rw [Core.execute_eq_dispatch, hp, Core.dispatch_of_halt _ rfl, hc]
    rfl
  rw [Core.step_of_running hh]
  exact he

theorem halted_waits_sleeper :
    let m := sleeper.step.2
    let operations : List HostOperation := [.run 100, .writePort 2 7, .step, .mute 3, .skip 5]
    let m' := operations.foldl operate m
    m.Reachable ∧ m.core.registers.halted ∧ m.Consistent ∧ (m.core.steps 1000 m.executed).1 = m.executed + 2000 ∧
      m'.core.registers = { pc := 0xFFC1, halted := true } ∧ m'.released = m'.target / Dsp.sampleClocks := by
  intro m operations m'
  have hc : create (some sleepRom.bytes) (some Ram.zero.bytes) = .ok sleeper := create_images (by decide) .zero
  have hs : Machine.initial.operate (.create (some sleepRom.bytes) (some Ram.zero.bytes)) = sleeper := by
    simp only [operate, hc]
    rfl
  have hr : m.Reachable := .operate (hs ▸ .operate .initial _) .step
  have hm : m.Consistent := by
    refine (Consistent.start sleepRom .zero ?_).step
    intro image hi
    obtain rfl := Option.mem_some.1 hi
    exact Ram.zero.size_eq
  have hh : m.core.registers.halted := congrArg Registers.halted halted_sleeper
  have ho : ∀ o ∈ operations, ¬ o.Restarts := by simp [operations, HostOperation.Restarts]
  obtain ⟨-, hsteps, hw, -⟩ := halted_waits hr hh
  obtain ⟨hreg, -, -, -, -, -, hrel, -⟩ := hw operations ho
  refine ⟨hr, hh, hm, ?_, hreg.trans halted_sleeper, hrel hm⟩
  rw [hsteps]

end Machine

end SoundUnit
