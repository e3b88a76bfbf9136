import SoundUnit.Proofs.Bus.AddressMap
import SoundUnit.Proofs.Validity.Bus

namespace SoundUnit

theorem Location.ofAddress_eq_control (addr : UInt16) : ofAddress addr = .control ↔ addr = 0xF1 := by
  rw [ofAddress_eq_iff, ← UInt16.toNat_inj]
  rfl

def portAddress (i : Fin 4) : UInt16 := 0xF4 + UInt16.ofNat i

def clearBit (i : Fin 4) : Fin 8 := if i.val < 2 then 4 else 5

theorem Location.ofAddress_eq_port (addr : UInt16) (i : Fin 4) : ofAddress addr = .port i ↔ addr = portAddress i := by
  have hp : ∀ i : Fin 4, (portAddress i).toNat = 0xF4 + i.val := by decide
  rw [ofAddress_eq_iff, ← UInt16.toNat_inj, hp]
  rfl

/-- What happens at the bus. An access of the processor and a look of the host at a port come with the data. -/
inductive BusEvent where
  | hostWrite (port : Nat) (data : UInt8)
  | hostRead (port : Nat) (data : UInt8)
  | write (addr : UInt16) (data : UInt8)
  | read (addr : UInt16) (data : UInt8)
  | pass (clocks : Nat)
  | reset
  /-- The host changes the memory or the sound generator. -/
  | change

namespace BusEvent

/-- What an event gives the processor to read at a port: what the host writes to it, and zero when the processor clears
its pair of ports. -/
def toProcessor (i : Fin 4) : BusEvent → Option UInt8
  | hostWrite port data => if port % 4 = i then some data else none
  | write addr data => if addr = 0xF1 ∧ Bit.test data (clearBit i) then some 0 else none
  | reset => some 0
  | _ => none

def toHost (i : Fin 4) : BusEvent → Option UInt8
  | write addr data => if addr = portAddress i then some data else none
  | reset => some 0
  | _ => none

/-- The last of the values that events give, if they give any. -/
def latest (f : BusEvent → Option UInt8) (otherwise : UInt8) (log : List BusEvent) : UInt8 :=
  (log.filterMap f).getLastD otherwise

theorem latest_cons (f : BusEvent → Option UInt8) (v : UInt8) (e : BusEvent) (log : List BusEvent) :
    latest f v (e :: log) = latest f ((f e).getD v) log := by
  unfold latest
  cases h : f e with
  | none => rw [List.filterMap_cons_none h, Option.getD_none]
  | some w => rw [List.filterMap_cons_some h, List.getLastD_cons, Option.getD_some]

theorem one_direction {e : BusEvent} (h : e ≠ reset) (i j : Fin 4) : e.toProcessor i = none ∨ e.toHost j = none := by
  have hp : ∀ j, portAddress j ≠ 0xF1 := by decide
  cases e with
  | write addr data =>
    by_cases ha : addr = portAddress j
    · left
      simp [toProcessor, ha, hp]
    · right
      simp [toHost, ha]
  | reset => exact absurd rfl h
  | _ => exact .inr rfl

end BusEvent

namespace Bus

open BusEvent

inductive Happens : Bus → BusEvent → Bus → Prop
  | hostWrite (b : Bus) (port : Nat) (data : UInt8) : Happens b (.hostWrite port data) (b.writePort port data)
  | hostRead (b : Bus) (port : Nat) : Happens b (.hostRead port (b.readPort port)) b
  | write (b : Bus) (addr : UInt16) (data : UInt8) : Happens b (.write addr data) (b.write addr data)
  | read (b : Bus) (addr : UInt16) : Happens b (.read addr (b.read addr).1) (b.read addr).2
  | pass (b : Bus) (clocks : Nat) : Happens b (.pass clocks) (b.clock clocks)
  | reset (b : Bus) (bootRom : BootRom) (ram : Ram) : Happens b .reset { bootRom, ram }
  | change (b : Bus) (ram : Ram) (dsp : Dsp) : Happens b .change { b with ram, dsp }

/-- The events that have led from one state of the bus to another. -/
inductive History : Bus → List BusEvent → Bus → Prop
  | nil (b : Bus) : History b [] b
  | cons {b b' c : Bus} {e : BusEvent} {log : List BusEvent} :
      Happens b e b' → History b' log c → History b (e :: log) c

section Ports

variable {b b' c : Bus} {e : BusEvent} {log log' : List BusEvent}

theorem History.one (h : b.Happens e b') : b.History [e] b' := .cons h (.nil b')

theorem History.append (h : b.History log b') (h' : b'.History log' c) : b.History (log ++ log') c := by
  induction h with
  | nil => exact h'
  | cons he _ ih => exact .cons he (ih h')

theorem History.split (h : b.History (log ++ log') c) : ∃ b', b.History log b' ∧ b'.History log' c := by
  induction log generalizing b with
  | nil => exact ⟨b, .nil b, h⟩
  | cons e log ih =>
    cases h with
    | cons he h =>
      obtain ⟨b', h₁, h₂⟩ := ih h
      exact ⟨b', .cons he h₁, h₂⟩

theorem read_port (b : Bus) (i : Fin 4) : b.read (portAddress i) = (b.portsIn.get i, b) := by
  have h : Location.ofAddress (portAddress i) = .port i := (Location.ofAddress_eq_port ..).2 rfl
  simp only [read, peek, h]

theorem ports_read (b : Bus) (addr : UInt16) :
    (b.read addr).2.portsIn = b.portsIn ∧ (b.read addr).2.portsOut = b.portsOut := by
  rw [b.read_eq]
  exact ⟨rfl, rfl⟩

theorem portsIn_writeControl (b : Bus) (data : UInt8) (i : Fin 4) :
    (b.writeControl data).portsIn.get i = if Bit.test data (clearBit i) then 0 else b.portsIn.get i :=
  Vector.get_ofFn ..

theorem portsIn_write (b : Bus) (addr : UInt16) (data : UInt8) (i : Fin 4) :
    (b.write addr data).portsIn.get i = ((BusEvent.write addr data).toProcessor i).getD (b.portsIn.get i) := by
  unfold Bus.write toProcessor
  simp only [← Location.ofAddress_eq_control]
  cases Location.ofAddress addr with
  | control =>
    simp only [portsIn_writeControl, true_and]
    split <;> rfl
  | _ => simp

theorem portsOut_write (b : Bus) (addr : UInt16) (data : UInt8) (i : Fin 4) :
    (b.write addr data).portsOut.get i = ((BusEvent.write addr data).toHost i).getD (b.portsOut.get i) := by
  unfold Bus.write toHost
  simp only [← Location.ofAddress_eq_port]
  cases Location.ofAddress addr with
  | port j =>
    simp only [get_setIfInBounds, Location.port.injEq]
    split <;> rfl
  | control => simp [writeControl]
  | _ => simp

theorem Happens.portsIn (h : b.Happens e b') (i : Fin 4) :
    b'.portsIn.get i = (e.toProcessor i).getD (b.portsIn.get i) := by
  cases h with
  | hostWrite port data =>
    have hp : Fin.ofNat 4 port = i ↔ port % 4 = i.val := Fin.ext_iff
    simp only [writePort, toProcessor, get_setIfInBounds, hp]
    split <;> rfl
  | write addr data => exact b.portsIn_write addr data i
  | read addr => simp [(b.ports_read addr).1, toProcessor]
  | reset => simp [toProcessor, Vector.get_eq_getElem]
  | _ => rfl

theorem Happens.portsOut (h : b.Happens e b') (i : Fin 4) :
    b'.portsOut.get i = (e.toHost i).getD (b.portsOut.get i) := by
  cases h with
  | write addr data => exact b.portsOut_write addr data i
  | read addr => simp [(b.ports_read addr).2, toHost]
  | reset => simp [toHost, Vector.get_eq_getElem]
  | _ => rfl

theorem History.portsIn (h : b.History log b') (i : Fin 4) :
    b'.portsIn.get i = latest (toProcessor i) (b.portsIn.get i) log := by
  induction h with
  | nil => rfl
  | cons he _ ih => rw [ih, he.portsIn, latest_cons]

theorem History.portsOut (h : b.History log b') (i : Fin 4) :
    b'.portsOut.get i = latest (toHost i) (b.portsOut.get i) log := by
  induction h with
  | nil => rfl
  | cons he _ ih => rw [ih, he.portsOut, latest_cons]

theorem History.read_port {i : Fin 4} {data : UInt8} (h : b.History (log ++ .read (portAddress i) data :: log') c) :
    data = latest (toProcessor i) (b.portsIn.get i) log := by
  obtain ⟨b', h₁, h₂⟩ := h.split
  cases h₂ with
  | cons he =>
    cases he
    rw [b'.read_port, h₁.portsIn]

theorem History.hostRead {port : Nat} {data : UInt8} (h : b.History (log ++ .hostRead port data :: log') c) :
    data = latest (toHost (Fin.ofNat 4 port)) (b.portsOut.get (Fin.ofNat 4 port)) log := by
  obtain ⟨b', h₁, h₂⟩ := h.split
  cases h₂ with
  | cons he =>
    cases he
    exact h₁.portsOut _

end Ports

def accesses {α : Type} (b : Bus) : Access α → List BusEvent
  | .done _ => []
  | .read addr next => .read addr (b.read addr).1 :: (b.read addr).2.accesses (next (b.read addr).1)
  | .write addr data next => .write addr data :: (b.write addr data).accesses next

theorem history_perform {α : Type} (b : Bus) (p : Access α) : b.History (b.accesses p) (b.perform p).2 := by
  induction p generalizing b with
  | done value => exact .nil b
  | read addr next ih => exact .cons (.read b addr) (ih _ _)
  | write addr data next ih => exact .cons (.write b addr data) (ih _)

end Bus

end SoundUnit
