import SoundUnit.Proofs.Bus.AddressMap
import SoundUnit.Proofs.Machine.Persistence
import SoundUnit.Proofs.Voice.Stages

namespace SoundUnit

namespace Dsp

/-- The generators that a machine reaches from power on, whatever its memory holds when time passes. -/
inductive Reachable : Dsp → Prop
  | initial : Reachable {}
  | write {d : Dsp} (h : Reachable d) (addr data : UInt8) : Reachable (d.write addr data)
  | clock {d : Dsp} (h : Reachable d) (clocks : Nat) (ram : Ram) : Reachable (d.clock clocks ram).1
  | take {d : Dsp} (h : Reachable d) (n : Nat) : Reachable (d.take n).2
  | mute {d : Dsp} (h : Reachable d) (mask : UInt8) : Reachable (d.mute mask)
  | clearEcho {d : Dsp} (h : Reachable d) (ram : Ram) : Reachable (d.clearEcho ram).1

theorem contained_keyed (d : Dsp) (v : Fin 8) {voice : Voice} (h : voice.Contained) :
    (d.keyed v voice).Contained := by
  obtain ⟨-, he⟩ | ⟨-, -, u, he⟩ | ⟨-, -, he⟩ := d.keyed_cases v voice
  · rw [he]
    exact .stop voice
  · rw [he]
    exact .keyOn u
  · rw [he]
    split
    · exact h.keyOff
    · exact h

variable {d : Dsp}

theorem contained_tick (h : ∀ v, (d.voices.get v).Contained) (ram : Ram) (v : Fin 8) :
    ((d.tick ram).1.voices.get v).Contained := by
  obtain ⟨tick, hv, -⟩ := d.tick_voice ram v
  rw [hv]
  exact (contained_keyed d v (h v)).clock ram tick

theorem contained_ticks (h : ∀ v, (d.voices.get v).Contained) (n : Nat) (ram : Ram) (v : Fin 8) :
    ((ticks n d ram).1.voices.get v).Contained := by
  induction n generalizing d ram with
  | zero => exact h v
  | succ n ih => exact ih (contained_tick h ram) _

theorem contained_write (h : ∀ v, (d.voices.get v).Contained) (addr data : UInt8) (v : Fin 8) :
    ((d.write addr data).voices.get v).Contained := by
  rcases d.write_voice v addr data with he | ⟨r, he⟩
  · rw [he]
    exact h v
  · rw [he]
    exact (h v).writeRegister data r

namespace Reachable

theorem contained (h : d.Reachable) : ∀ v, (d.voices.get v).Contained := by
  induction h with
  | initial =>
    intro v
    have hv : ({} : Dsp).voices.get v = {} := Vector.getElem_replicate v.isLt
    rw [hv]
    exact .initial
  | write _ addr data ih => exact contained_write ih addr data
  | @clock d _ clocks ram ih =>
    exact contained_ticks (d := { d with elapsed := (d.elapsed + clocks) % sampleClocks }) ih _ ram
  | take _ n ih => exact ih
  | mute _ mask ih => exact ih
  | clearEcho _ ram ih => exact ih

theorem valid (h : d.Reachable) : d.Valid := by
  induction h with
  | initial => exact initial_valid
  | write _ addr data ih => exact ih.write addr data
  | clock _ clocks ram ih => exact ih.clock clocks ram
  | take _ n ih => exact ih.take n
  | mute _ mask ih => exact ih
  | clearEcho _ ram ih => exact ih.clearEcho ram

end Reachable

end Dsp

section Access

variable {b : Bus}

theorem Bus.dsp_read (b : Bus) (addr : UInt16) : (b.read addr).2.dsp = b.dsp := by
  rw [b.read_eq]
  rfl

theorem Bus.reachable_write (h : b.dsp.Reachable) (addr : UInt16) (data : UInt8) :
    (b.write addr data).dsp.Reachable := by
  rw [dsp_write]
  split
  next => exact h.write b.dspAddress data
  next => exact h

theorem Bus.reachable_perform {α : Type} (h : b.dsp.Reachable) (p : Access α) : (b.perform p).2.dsp.Reachable :=
  Access.run_invariant (P := fun b ↦ b.dsp.Reachable) _ _ (fun addr b h ↦ (b.dsp_read addr) ▸ h)
    (fun addr data _ h ↦ reachable_write h addr data) p b h

end Access

namespace Core

theorem reachable_step {c : Core} (h : c.bus.dsp.Reachable) : c.step.2.bus.dsp.Reachable := by
  by_cases hh : c.registers.halted
  · rw [step_of_halted hh]
    exact h.clock haltedClocks c.bus.ram
  · rw [step_of_running hh]
    have hp := Bus.reachable_perform h (Exec.instruction c.registers)
    generalize hr : c.bus.perform (Exec.instruction c.registers) = r at hp
    rw [execute_eq c hr]
    exact hp.clock _ r.2.ram

theorem reachable_runTo (target executed : Nat) {c : Core} (h : c.bus.dsp.Reachable) :
    (c.runTo target executed).2.bus.dsp.Reachable :=
  runTo_invariant (P := fun _ c ↦ c.bus.dsp.Reachable) (fun _ _ _ h ↦ reachable_step h) h

end Core

namespace Machine

variable {m : Machine}

theorem reachable_operate (h : m.core.bus.dsp.Reachable) (o : HostOperation) :
    (m.operate o).core.bus.dsp.Reachable := by
  cases o with
  | create bootImage ramImage =>
    rcases m.create_cases bootImage ramImage with he | ⟨rom, ram, he, -⟩
    · rw [he]
      exact h
    · rw [he]
      exact .initial
  | writePort port data => exact h
  | run clocks => exact (Core.reachable_runTo (m.target + clocks) m.executed h).take _
  | skip clocks => exact (Core.reachable_runTo (m.target + clocks) m.executed h).take _
  | step => exact (Core.reachable_step h).take _
  | read n => exact h
  | reset soft => cases soft <;> exact .initial
  | clearEcho => exact h.clearEcho m.core.bus.ram
  | mute mask => exact h.mute mask

theorem Genuine.dsp_reachable (h : m.Genuine) : m.core.bus.dsp.Reachable := by
  induction h with
  | initial => exact .initial
  | operate _ o _ ih => exact reachable_operate ih o
  | restore _ hs _ ih =>
    rw [restore_of_load (hs.consistent.1.load_save hs.consistent.2)]
    exact ih

end Machine

end SoundUnit
