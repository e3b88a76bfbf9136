import SoundUnit.Proofs.Bus.PortEvents
import SoundUnit.Proofs.Machine.Host

namespace SoundUnit

namespace Core

def stepEvents (c : Core) : List BusEvent :=
  if c.registers.halted then [.pass haltedClocks]
  else c.bus.accesses (Exec.instruction c.registers) ++ [.pass c.execute.1]

def runEvents (target executed : Nat) (c : Core) : List BusEvent :=
  if executed < target then
    have := c.two_le_step
    c.stepEvents ++ runEvents target (executed + c.step.1) c.step.2
  else []
termination_by target - executed

theorem history_execute (c : Core) : c.bus.History (c.bus.accesses (Exec.instruction c.registers)) c.execute.2.bus :=
  c.bus.history_perform _

theorem history_elapse (c : Core) (clocks : Nat) : c.bus.History [.pass clocks] (c.elapse clocks).bus :=
  .one (.pass c.bus clocks)

theorem history_step (c : Core) : c.bus.History c.stepEvents c.step.2.bus := by
  unfold stepEvents
  by_cases h : c.registers.halted
  · rw [step_of_halted h, if_pos h]
    exact c.history_elapse haltedClocks
  · rw [step_of_running h, if_neg h]
    exact c.history_execute.append (c.execute.2.history_elapse _)

theorem history_runTo (target executed : Nat) (c : Core) :
    c.bus.History (c.runEvents target executed) (c.runTo target executed).2.bus := by
  induction executed, c using run_induction target with
  | reached executed c hle =>
    rw [runTo_of_le hle, runEvents, if_neg (Nat.not_lt.2 hle)]
    exact .nil c.bus
  | step executed c hlt ih =>
    rw [runTo_of_lt hlt, runEvents, if_pos hlt]
    exact c.history_step.append ih

end Core

namespace Machine

/-- What happens at the bus in an operation of the host. The samples that are due are taken from the sound generator in
the end. -/
def operationEvents (m : Machine) : HostOperation → List BusEvent
  | .create bootImage ramImage => match Machine.create bootImage ramImage with
    | .ok _ => [.reset]
    | .error _ => []
  | .writePort port data => [.hostWrite port data]
  | .run clocks | .skip clocks => m.core.runEvents (m.target + clocks) m.executed ++ [.change]
  | .step => m.core.stepEvents ++ [.change]
  | .read _ => []
  | .reset _ => [.reset]
  | .clearEcho | .mute _ => [.change]

/-- What the two sides of the ports can do, in any order. The instructions of the processor come with the runs and steps
of the host; `access` is any reads and writes that it could do besides, and `pass` is time without it. -/
inductive Interaction where
  | operate (o : HostOperation)
  | readPort (port : Nat)
  | access (p : Access Unit)
  | pass (clocks : Nat)

def interact (m : Machine) : Interaction → Machine
  | .operate o => m.operate o
  | .readPort _ => m
  | .access p => m.withBus fun b ↦ (b.perform p).2
  | .pass clocks => m.withBus fun b ↦ b.clock clocks

def interactionEvents (m : Machine) : Interaction → List BusEvent
  | .operate o => m.operationEvents o
  | .readPort port => [.hostRead port (m.readPort port)]
  | .access p => m.core.bus.accesses p
  | .pass clocks => [.pass clocks]

def interactAll (m : Machine) (interactions : List Interaction) : Machine := interactions.foldl interact m

def log (m : Machine) : List Interaction → List BusEvent
  | [] => []
  | a :: interactions => m.interactionEvents a ++ (m.interact a).log interactions

section History

variable (m : Machine)

theorem history_release : m.core.bus.History [.change] m.release.core.bus := .one (.change m.core.bus _ _)

theorem history_run (clocks : Nat) :
    m.core.bus.History (m.core.runEvents (m.target + clocks) m.executed ++ [.change]) (m.run clocks).core.bus :=
  (m.core.history_runTo _ _).append (m.advance clocks).history_release

theorem history_create (bootImage ramImage : Option ByteArray) :
    m.core.bus.History (m.operationEvents (.create bootImage ramImage))
      (m.operate (.create bootImage ramImage)).core.bus := by
  cases h : Machine.create bootImage ramImage with
  | error failure =>
    simp only [operationEvents, operate, h]
    exact .nil _
  | ok fresh =>
    obtain ⟨rom, ram, rfl, -⟩ := create_eq_ok h
    simp only [operationEvents, operate, h]
    exact .one (.reset m.core.bus rom ram)

theorem history_operate (o : HostOperation) : m.core.bus.History (m.operationEvents o) (m.operate o).core.bus := by
  cases o with
  | create bootImage ramImage => exact m.history_create bootImage ramImage
  | writePort port data => exact .one (.hostWrite m.core.bus port data)
  | run clocks => exact m.history_run clocks
  | skip clocks => exact m.history_run clocks
  | step => exact m.core.history_step.append m.advanceStep.history_release
  | read n => exact .nil _
  | reset soft =>
    cases soft with
    | true => exact .one (.reset m.core.bus _ _)
    | false => exact .one (.reset m.core.bus _ _)
  | clearEcho => exact .one (.change m.core.bus _ _)
  | mute mask => exact .one (.change m.core.bus _ _)

theorem history_interact (a : Interaction) :
    m.core.bus.History (m.interactionEvents a) (m.interact a).core.bus := by
  cases a with
  | operate o => exact m.history_operate o
  | readPort port => exact .one (.hostRead m.core.bus port)
  | access p => exact m.core.bus.history_perform p
  | pass clocks => exact .one (.pass m.core.bus clocks)

theorem history_log (interactions : List Interaction) :
    m.core.bus.History (m.log interactions) (m.interactAll interactions).core.bus := by
  induction interactions generalizing m with
  | nil => exact .nil _
  | cons a interactions ih => exact (m.history_interact a).append (ih (m.interact a))

end History

open BusEvent (latest toProcessor toHost one_direction)

/-- From the start of a machine on, whatever its memory holds and in whichever order host, processor, sound generator
and resets come: each side reads at a port the latest value that was put there for it, during all of the time and after
it. But for resets, the two directions have no events in common. The memory does not show through at the ports, and
neither does what is written to it in the course of time. -/
theorem ports_latch (bootRom : BootRom) (ram : Ram) (image : Option ByteArray) (interactions : List Interaction) :
    let m := start bootRom ram image
    let log := m.log interactions
    (∀ i, ((m.interactAll interactions).core.bus.read (portAddress i)).1 = latest (toProcessor i) 0 log) ∧
      (∀ port, (m.interactAll interactions).readPort port = latest (toHost (Fin.ofNat 4 port)) 0 log) ∧
      (∀ before after i data, log = before ++ .read (portAddress i) data :: after →
        data = latest (toProcessor i) 0 before) ∧
      (∀ before after port data, log = before ++ .hostRead port data :: after →
        data = latest (toHost (Fin.ofNat 4 port)) 0 before) ∧
      (∀ e : BusEvent, e ≠ .reset → ∀ i j, e.toProcessor i = none ∨ e.toHost j = none) ∧
      ∀ (b : Bus) (ram' : Ram) (clocks : Nat),
        (∀ i, (({ b with ram := ram' }.clock clocks).read (portAddress i)).1 = (b.read (portAddress i)).1) ∧
          ∀ port, ({ b with ram := ram' }.clock clocks).readPort port = b.readPort port := by
  intro m log
  have h : m.core.bus.History log (m.interactAll interactions).core.bus := m.history_log interactions
  have hi (i : Fin 4) : m.core.bus.portsIn.get i = 0 := by simp [m, start, Core.start, Vector.get_eq_getElem]
  have ho (i : Fin 4) : m.core.bus.portsOut.get i = 0 := by simp [m, start, Core.start, Vector.get_eq_getElem]
  refine ⟨fun i ↦ ?_, fun port ↦ ?_, fun before after i data hl ↦ ?_, fun before after port data hl ↦ ?_,
    fun e he ↦ one_direction he, fun b ram' clocks ↦ ⟨fun i ↦ ?_, fun port ↦ rfl⟩⟩
  · rw [Bus.read_port, h.portsIn, hi]
  · exact (h.portsOut _).trans (ho _ ▸ rfl)
  · rw [hl] at h
    exact h.read_port.trans (hi i ▸ rfl)
  · rw [hl] at h
    exact h.hostRead.trans (ho _ ▸ rfl)
  · rw [Bus.read_port, Bus.read_port]
    rfl

/-- The processor answers at the same port with one more, and then clears what it has been sent. -/
theorem ports_latch_answer :
    let interactions : List Interaction :=
      [.operate (.writePort 5 0x12), .access (.read 0xF5 fun data ↦ .write 0xF5 (data + 1) (.done ())), .readPort 1,
        .access (.write 0xF1 0x10 (.done ()))]
    let log := initial.log interactions
    log = [.hostWrite 5 0x12] ++ .read (portAddress 1) 0x12 :: [.write 0xF5 0x13, .hostRead 1 0x13, .write 0xF1 0x10] ∧
      (0x12 : UInt8) = latest (toProcessor 1) 0 [.hostWrite 5 0x12] ∧
      (initial.interactAll interactions).readPort 1 = 0x13 ∧
      ((initial.interactAll interactions).core.bus.read 0xF5).1 = 0 := by
  intro interactions log
  have hl : log = [.hostWrite 5 0x12] ++ .read (portAddress 1) 0x12 :: [.write 0xF5 0x13, .hostRead 1 0x13,
      .write 0xF1 0x10] := rfl
  obtain ⟨hi, ho, hr, -⟩ := ports_latch .standard .zero none interactions
  exact ⟨hl, hr _ _ 1 _ hl, (ho 1).trans (congrArg _ hl), (hi 1).trans (congrArg _ hl)⟩

end Machine

end SoundUnit
