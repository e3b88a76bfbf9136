import SoundUnit.Proofs.Machine.Run
import SoundUnit.Proofs.Snapshot.Codec

namespace SoundUnit

inductive HostOperation where
  | create (bootImage ramImage : Option ByteArray)
  | writePort (port : Nat) (data : UInt8)
  | run (clocks : Nat)
  | skip (clocks : Nat)
  | step
  | read (n : Nat)
  | reset (soft : Bool)
  | clearEcho
  | mute (mask : UInt8)

namespace Machine

/-- The machine after an operation. Images that are rejected leave it as it is. -/
def operate (m : Machine) : HostOperation → Machine
  | .create bootImage ramImage => (Machine.create bootImage ramImage).toOption.getD m
  | .writePort port data => m.writePort port data
  | .run clocks => m.run clocks
  | .skip clocks => m.skip clocks
  | .step => m.step.2
  | .read n => (m.read n).2
  | .reset soft => m.reset soft
  | .clearEcho => m.clearEcho
  | .mute mask => m.mute mask

def restore (m : Machine) (bytes : List UInt8) : Machine := (load bytes).toOption.getD m

theorem restore_of_load {bytes : List UInt8} {m : Machine} (h : load bytes = .ok m) (other : Machine) :
    other.restore bytes = m := by
  rw [restore, h]
  rfl

theorem restore_cases (m : Machine) (bytes : List UInt8) :
    m.restore bytes = m ∨ load bytes = .ok (m.restore bytes) := by
  unfold restore
  cases load bytes with
  | error failure => exact .inl rfl
  | ok n => exact .inr rfl

theorem loadRam_eq_ok {image : ByteArray} {ram : Ram} (h : loadRam image = .ok ram) : image = ram.bytes := by
  unfold loadRam at h
  split at h
  next => cases h
  next hr =>
    cases h
    exact Ram.ofBytes?_eq_some.1 hr

theorem create_eq (bootImage ramImage : Option ByteArray) :
    create bootImage ramImage =
      (bootImage.elim (.ok .standard) loadBootRom >>= fun rom ↦
        ramImage.elim (.ok .zero) loadRam >>= fun ram ↦ pure (start rom ram ramImage)) := by
  cases bootImage <;> cases ramImage <;> rfl

theorem create_eq_ok {bootImage ramImage : Option ByteArray} {m : Machine} (h : create bootImage ramImage = .ok m) :
    ∃ rom ram, m = start rom ram ramImage ∧ ∀ image ∈ ramImage, image.size = Ram.size := by
  simp only [create_eq, bind_eq_ok, pure_eq_ok] at h
  obtain ⟨rom, -, ram, hram, hm⟩ := h
  refine ⟨rom, ram, hm.symm, fun image hi ↦ ?_⟩
  obtain rfl := Option.mem_def.1 hi
  rw [loadRam_eq_ok hram]
  exact ram.size_eq

theorem create_cases (m : Machine) (bootImage ramImage : Option ByteArray) :
    m.operate (.create bootImage ramImage) = m ∨
      ∃ rom ram, m.operate (.create bootImage ramImage) = start rom ram ramImage ∧
        ∀ image ∈ ramImage, image.size = Ram.size := by
  cases h : Machine.create bootImage ramImage with
  | error failure =>
    left
    simp only [operate, h]
    rfl
  | ok fresh =>
    right
    obtain ⟨rom, ram, rfl, hi⟩ := create_eq_ok h
    refine ⟨rom, ram, ?_, hi⟩
    simp only [operate, h]
    rfl

/-- The machines that a host reaches from the initial one, whatever bytes it loads. -/
inductive Reachable : Machine → Prop
  | initial : Reachable .initial
  | operate {m : Machine} (h : Reachable m) (o : HostOperation) : Reachable (m.operate o)
  | restore {m : Machine} (h : Reachable m) (bytes : List UInt8) : Reachable (m.restore bytes)

theorem settled_start (rom : BootRom) (ram : Ram) (image : Option ByteArray) : (start rom ram image).Settled :=
  ⟨Nat.le_refl 0, .inl (Nat.zero_div _)⟩

theorem Valid.settled {m : Machine} (h : m.Valid) : m.Settled := by
  obtain ⟨hle, -, hr, -⟩ := h.2.2
  refine ⟨hle, .inl ?_⟩
  rw [due, hr, Nat.sub_self]

theorem Settled.operate {m : Machine} (h : m.Settled) (o : HostOperation) : (m.operate o).Settled := by
  cases o with
  | create bootImage ramImage =>
    rcases m.create_cases bootImage ramImage with he | ⟨rom, ram, he, -⟩
    · rw [he]
      exact h
    · rw [he]
      exact settled_start rom ram ramImage
  | writePort port data => exact h
  | run clocks => exact m.settled_run clocks
  | skip clocks => exact m.settled_run clocks
  | step => exact m.settled_step
  | read n => exact h
  | reset soft => exact ⟨Nat.le_refl 0, .inl (Nat.zero_div _)⟩
  | clearEcho => exact h
  | mute mask => exact h

theorem Reachable.settled {m : Machine} (h : m.Reachable) : m.Settled := by
  induction h with
  | initial => exact settled_start ..
  | operate _ o ih => exact ih.operate o
  | @restore m _ bytes ih =>
    rcases m.restore_cases bytes with he | hl
    · rw [he]
      exact ih
    · exact (Snapshot.decode_eq_ok.1 (load_eq_ok.1 hl)).2.1.settled

/-- How the asked-for time is split into runs makes no difference. -/
theorem Reachable.runs_eq {m : Machine} (h : m.Reachable) {l₁ l₂ : List Nat} (hl : l₁.sum = l₂.sum) :
    l₁.foldl run m = l₂.foldl run m := by
  rw [h.settled.foldl_run, h.settled.foldl_run, hl]

theorem runs_eq_initial_run :
    (initial.run 7).Reachable ∧ [30, 0, 2].sum = [32].sum ∧
      [30, 0, 2].foldl run (initial.run 7) = [32].foldl run (initial.run 7) :=
  have h : (initial.run 7).Reachable := .operate .initial (.run 7)
  ⟨h, rfl, h.runs_eq rfl⟩

end Machine

end SoundUnit
