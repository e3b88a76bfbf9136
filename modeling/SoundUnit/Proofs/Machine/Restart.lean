import SoundUnit.Proofs.Bus.AddressMap
import SoundUnit.Proofs.Machine.Host

namespace SoundUnit

namespace Bus

variable {rom : BootRom}

theorem bootRom_read {b : Bus} (h : b.bootRom = rom) (addr : UInt16) : (b.read addr).2.bootRom = rom := by
  rw [b.read_eq]
  exact h

theorem bootRom_write {b : Bus} (h : b.bootRom = rom) (addr : UInt16) (data : UInt8) :
    (b.write addr data).bootRom = rom := by
  unfold write
  split <;> exact h

theorem bootRom_perform {α : Type} (b : Bus) (p : Access α) : (b.perform p).2.bootRom = b.bootRom := by
  apply Access.run_invariant (P := fun b' : Bus ↦ b'.bootRom = b.bootRom)
  · intro addr b' h
    exact bootRom_read h addr
  · intro addr data b' h
    exact bootRom_write h addr data
  · rfl

end Bus

namespace Core

theorem start_eq (ram : Ram) (rom : BootRom) :
    start { ram, bootRom := rom } = { registers := { pc := rom.resetVector }, bus := { ram, bootRom := rom } } := by
  have hl : Location.ofAddress resetVector = .boot 62 := by decide
  have hh : Location.ofAddress (resetVector + 1) = .boot 63 := by decide
  have hm : Bus.bootMapped { ram, bootRom := rom } = true := by
    change Bit.test 0xB0 7 = true
    decide
  simp only [start, Bus.peek, hl, hh, hm, if_pos]
  rfl

theorem bootRom_step (c : Core) : c.step.2.bus.bootRom = c.bus.bootRom := by
  by_cases h : c.registers.halted
  · rw [step_of_halted h]
    rfl
  · have hp := c.bus.bootRom_perform (Exec.instruction c.registers)
    rw [step_of_running h]
    exact hp

theorem bootRom_runTo (target executed : Nat) (c : Core) :
    (c.runTo target executed).2.bus.bootRom = c.bus.bootRom := by
  refine runTo_invariant (P := fun _ c' ↦ c'.bus.bootRom = c.bus.bootRom) (fun _ c' _ h ↦ ?_) rfl
  rw [bootRom_step, h]

end Core

def HostOperation.KeepsImages : HostOperation → Prop
  | create .. => False
  | _ => True

namespace Machine

variable {bootImage ramImage : Option ByteArray}

theorem bootRom_operate (m : Machine) {o : HostOperation} (h : o.KeepsImages) :
    (m.operate o).core.bus.bootRom = m.core.bus.bootRom := by
  cases o with
  | create => exact h.elim
  | run clocks => exact m.core.bootRom_runTo _ _
  | skip clocks => exact m.core.bootRom_runTo _ _
  | step => exact m.core.bootRom_step
  | reset soft => cases soft <;> rfl
  | _ => rfl

theorem ramImage_operate (m : Machine) {o : HostOperation} (h : o.KeepsImages) :
    (m.operate o).ramImage = m.ramImage := by
  cases o with
  | create => exact h.elim
  | _ => rfl

theorem images_foldl {operations : List HostOperation} (h : ∀ o ∈ operations, o.KeepsImages) (m : Machine) :
    (operations.foldl operate m).core.bus.bootRom = m.core.bus.bootRom ∧
      (operations.foldl operate m).ramImage = m.ramImage := by
  induction operations generalizing m with
  | nil => exact ⟨rfl, rfl⟩
  | cons o operations ih =>
    obtain ⟨ho, hrest⟩ := List.forall_mem_cons.1 h
    obtain ⟨hb, hi⟩ := ih hrest (m.operate o)
    exact ⟨hb.trans (m.bootRom_operate ho), hi.trans (m.ramImage_operate ho)⟩

theorem start_withRam (rom : BootRom) (ram ram' : Ram) (image : Option ByteArray) :
    (start rom ram image).withBus (fun b ↦ { b with ram := ram' }) = start rom ram' image := by
  simp only [start, Core.start_eq, withBus]

theorem reset_hard (m : Machine) :
    m.reset false = { start m.core.bus.bootRom m.freshRam m.ramImage with output := m.output } :=
  rfl

theorem reset_soft (m : Machine) :
    m.reset true = { start m.core.bus.bootRom m.core.bus.ram m.ramImage with output := m.output } :=
  rfl

theorem freshRam_create {m : Machine} (h : create bootImage ramImage = .ok m) : m.freshRam = m.core.bus.ram := by
  simp only [create_eq, bind_eq_ok, pure_eq_ok] at h
  obtain ⟨rom, -, ram, hram, rfl⟩ := h
  cases ramImage with
  | none =>
    cases hram
    rfl
  | some image =>
    change (Ram.ofBytes? image).getD .zero = ram
    rw [Ram.ofBytes?_eq_some.2 (loadRam_eq_ok hram)]
    rfl

/-- However a machine is used after its creation, a hard reset gives the machine that was created, and a soft reset
gives it with the memory that there is, both with the output queue that there is. -/
theorem reset_restarts {fresh : Machine} (h : create bootImage ramImage = .ok fresh)
    {operations : List HostOperation} (ho : ∀ o ∈ operations, o.KeepsImages) :
    let m := operations.foldl operate fresh
    m.reset false = { fresh with output := m.output } ∧
      m.reset true = { fresh.withBus (fun b ↦ { b with ram := m.core.bus.ram }) with output := m.output } := by
  intro m
  obtain ⟨hb, hi⟩ : m.core.bus.bootRom = fresh.core.bus.bootRom ∧ m.ramImage = fresh.ramImage := images_foldl ho fresh
  have hf := freshRam_create h
  obtain ⟨rom, ram, rfl, -⟩ := create_eq_ok h
  constructor
  · have hr : m.freshRam = ram := by
      rw [freshRam, hi]
      exact hf
    rw [reset_hard, hb, hi, hr]
    rfl
  · rw [reset_soft, hb, hi, start_withRam]
    rfl

theorem create_images {rom : BootRom} (h : BootRom.base ≤ rom.resetVector) (ram : Ram) :
    create (some rom.bytes) (some ram.bytes) = .ok (start rom ram (some ram.bytes)) := by
  have hb : loadBootRom rom.bytes = .ok rom := by
    rw [loadBootRom, BootRom.ofBytes?_eq_some.2 rfl]
    exact if_neg (UInt16.not_lt.2 h)
  have hr : loadRam ram.bytes = .ok ram := by
    rw [loadRam, Ram.ofBytes?_eq_some.2 rfl]
  rw [create_eq]
  change (loadBootRom rom.bytes >>= fun rom ↦ loadRam ram.bytes >>= fun ram' ↦ _) = _
  rw [hb, hr]
  rfl

theorem reset_restarts_written :
    let ram := Ram.zero.write 0x10 0x5A
    let fresh := start .standard ram (some ram.bytes)
    let m := [.run 3000, .writePort 1 7, .step, .mute 3, .reset true, .skip 40, .read 5, .clearEcho].foldl operate fresh
    create (some BootRom.standard.bytes) (some ram.bytes) = .ok fresh ∧
      m.reset false = { fresh with output := m.output } ∧
      m.reset true = { start .standard m.core.bus.ram (some ram.bytes) with output := m.output } := by
  intro ram fresh m
  have h : create (some BootRom.standard.bytes) (some ram.bytes) = .ok fresh := create_images (by decide) ram
  have ho : ∀ o ∈ [HostOperation.run 3000, .writePort 1 7, .step, .mute 3, .reset true, .skip 40, .read 5, .clearEcho],
      o.KeepsImages := by
    simp [HostOperation.KeepsImages]
  obtain ⟨hh, hs⟩ := reset_restarts h ho
  refine ⟨h, hh, hs.trans ?_⟩
  rw [start_withRam]

end Machine

end SoundUnit
