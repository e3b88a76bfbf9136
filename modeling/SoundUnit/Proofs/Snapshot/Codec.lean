import SoundUnit.Proofs.Snapshot.Layout
import SoundUnit.Proofs.Validity.Bus
import SoundUnit.Snapshot.Basic

namespace SoundUnit

theorem Ram.ofBytes?_eq_some {bytes : ByteArray} {ram : Ram} : ofBytes? bytes = some ram ↔ bytes = ram.bytes := by
  simp only [ofBytes?, Option.dite_none_right_eq_some, Option.some.injEq]
  constructor
  · intro h
    obtain ⟨_, rfl⟩ := h
    rfl
  · intro h
    obtain rfl := h
    exact ⟨ram.size_eq, rfl⟩

theorem BootRom.ofBytes?_eq_some {bytes : ByteArray} {rom : BootRom} :
    ofBytes? bytes = some rom ↔ bytes = rom.bytes := by
  simp only [ofBytes?, Option.dite_none_right_eq_some, Option.some.injEq]
  constructor
  · intro h
    obtain ⟨_, rfl⟩ := h
    rfl
  · intro h
    obtain rfl := h
    exact ⟨rom.size_eq, rfl⟩

/-- The counts of the machine and the lengths of its lists are numbers of 64 bits. -/
def Machine.Representable (m : Machine) : Prop := (SnapshotContents.ofMachine m).Fits

theorem Dsp.Valid.fits {d : Dsp} (h : d.Valid) (hf : d.frames.size < countLimit) : d.Fits := by
  obtain ⟨he, -, ⟨-, -, -, -, hn⟩, hv⟩ := h
  refine ⟨?_, hf, ?_, fun v hm ↦ ?_⟩
  · exact Nat.lt_trans he (by decide)
  · exact Nat.lt_trans hn (by decide)
  · obtain ⟨i, hi, rfl⟩ := Vector.getElem_of_mem hm
    obtain ⟨-, -, -, hp, -⟩ := hv ⟨i, hi⟩
    exact Nat.lt_trans hp (by decide)

theorem Bus.TimersValid.fits {b : Bus} (h : b.TimersValid) : ∀ t ∈ b.timers, t.Fits := by
  have hp : ∀ i : Fin 3, timerPeriods.get i < countLimit := by decide
  intro t ht
  obtain ⟨i, hi, rfl⟩ := Vector.getElem_of_mem ht
  obtain ⟨he, hlt, -⟩ := h ⟨i, hi⟩
  have hl : b.timers[i].period < countLimit := by
    rw [show b.timers[i].period = timerPeriods.get ⟨i, hi⟩ from he]
    exact hp ⟨i, hi⟩
  exact ⟨hl, Nat.lt_trans hlt hl⟩

namespace Machine

variable {m : Machine}

theorem representable_of_devicesValid (h : m.core.bus.DevicesValid) (he : m.executed < countLimit)
    (ht : m.target < countLimit) (hr : m.released < countLimit) (hf : m.core.bus.dsp.frames.size < countLimit)
    (ho : m.output.size < countLimit) (hi : ∀ image ∈ m.ramImage, image.size < countLimit) : m.Representable := by
  have hram : (SnapshotContents.ofMachine m).ram.size = 65536 := m.core.bus.ram.size_eq
  have hrom : (SnapshotContents.ofMachine m).bootRom.size = 64 := m.core.bus.bootRom.size_eq
  refine ⟨?_, ?_, h.2.fits hf, h.1.fits, hi, he, ht, hr, ho⟩
  · rw [hram]
    decide
  · rw [hrom]
    decide

theorem Valid.representable (h : m.Valid) (he : m.executed < countLimit) (ho : m.output.size < countLimit)
    (hi : ∀ image ∈ m.ramImage, image.size < countLimit) : m.Representable := by
  obtain ⟨ht, hd, hle, -, -, hw⟩ := h
  have hdiv := Nat.div_le_self m.executed Dsp.sampleClocks
  exact representable_of_devicesValid ⟨ht, hd⟩ he (by omega) (by omega) (by omega) ho hi

end Machine

namespace Format

variable {α : Type}

theorem check_eq_ok {p : Prop} [Decidable p] {fault : SnapshotFault} {x : Except SnapshotFault α}
    {k : PUnit → Except SnapshotFault α} {a : α} :
    (if p then x else throw fault >>= k) = .ok a ↔ p ∧ x = .ok a := by
  split
  next h => exact (and_iff_right h).symm
  next h => exact ⟨fun hk ↦ (nomatch hk), fun hp ↦ absurd hp.1 h⟩

end Format

namespace SnapshotContents

theorem ofMachine_inj {m n : Machine} (h : ofMachine m = ofMachine n) : m = n := by
  obtain ⟨⟨_, ⟨⟨_, _⟩, ⟨_, _⟩, _, _, _, _, _, _⟩⟩, _, _, _, _, _⟩ := m
  obtain ⟨⟨_, ⟨⟨_, _⟩, ⟨_, _⟩, _, _, _, _, _, _⟩⟩, _, _, _, _, _⟩ := n
  cases h
  rfl

theorem toMachine_eq_ok {c : SnapshotContents} {m : Machine} :
    c.toMachine = .ok m ↔ c = ofMachine m ∧ m.Valid := by
  unfold toMachine
  constructor
  · intro h
    split at h
    next ram hram =>
      split at h
      next rom hrom =>
        simp only [Format.check_eq_ok, pure_eq_ok] at h
        obtain ⟨ht, hd, hc, rfl⟩ := h
        refine ⟨?_, ht, hd, hc⟩
        have hr := Ram.ofBytes?_eq_some.1 hram
        have hb := BootRom.ofBytes?_eq_some.1 hrom
        simp only [ofMachine, ← hr, ← hb]
      next => cases h
    next => cases h
  · intro h
    obtain ⟨rfl, ht, hd, hc⟩ := h
    have hram := Ram.ofBytes?_eq_some.2 (rfl : (ofMachine m).ram = m.core.bus.ram.bytes)
    have hrom := BootRom.ofBytes?_eq_some.2 (rfl : (ofMachine m).bootRom = m.core.bus.bootRom.bytes)
    simp only [hram, hrom, Format.check_eq_ok, pure_eq_ok]
    exact ⟨ht, hd, hc, rfl⟩

end SnapshotContents

namespace Snapshot

theorem readHeader_eq_ok {bytes rest : List UInt8} :
    readHeader bytes = .ok rest ↔ bytes = header ++ rest := by
  simp only [readHeader, bind_eq_ok, Prod.exists, Format.readNat_eq_ok]
  constructor
  · intro h
    obtain ⟨v, r, ⟨-, hb⟩, h⟩ := h
    split at h
    next => cases h
    next hm =>
      split at h
      next => cases h
      next hv =>
        obtain rfl := pure_eq_ok.1 h
        rw [← List.take_append_drop 4 bytes, hb, Decidable.not_not.1 hm, Decidable.not_not.1 hv]
        rfl
  · intro h
    obtain rfl := h
    exact ⟨version, rest, ⟨by decide, rfl⟩, rfl⟩

theorem decode_eq_ok {bytes : List UInt8} {m : Machine} :
    decode bytes = .ok m ↔ m.Representable ∧ m.Valid ∧ encode m <+: bytes := by
  simp only [decode, bind_eq_ok, Prod.exists, readHeader_eq_ok, SnapshotContents.format_exact _ _ _,
    SnapshotContents.toMachine_eq_ok]
  constructor
  · intro h
    obtain ⟨_, rfl, _, rest, ⟨hf, rfl⟩, rfl, hv⟩ := h
    exact ⟨hf, hv, rest, List.append_assoc ..⟩
  · intro h
    obtain ⟨hf, hv, rest, rfl⟩ := h
    exact ⟨_, List.append_assoc .., _, rest, ⟨hf, rfl⟩, rfl, hv⟩

theorem encode_inj_of_append_eq {m n : Machine} (hm : m.Representable) (hn : n.Representable)
    {s t : List UInt8} (h : encode m ++ s = encode n ++ t) : m = n := by
  simp only [encode, List.append_assoc] at h
  exact SnapshotContents.ofMachine_inj
    (SnapshotContents.format_exact.write_inj hm hn (List.append_cancel_left h))

/-- Loading accepts the saved forms of valid machines with any bytes after them, gives these machines, and accepts
nothing else; and the saved forms are a prefix code. -/
theorem decode_prefix_code :
    (∀ bytes m, decode bytes = .ok m ↔ m.Representable ∧ m.Valid ∧ encode m <+: bytes) ∧
    (∀ m, m.Representable → m.Valid → ∀ rest, decode (encode m ++ rest) = .ok m) ∧
    (∀ bytes m, decode bytes = .ok m → ∃ rest, encode m ++ rest = bytes) ∧
    ∀ m n, m.Representable → n.Representable → encode m <+: encode n → m = n := by
  refine ⟨fun bytes m ↦ decode_eq_ok, fun m hr hv rest ↦ ?_, fun bytes m h ↦ ?_, fun m n hm hn h ↦ ?_⟩
  · exact decode_eq_ok.2 ⟨hr, hv, List.prefix_append _ rest⟩
  · exact (decode_eq_ok.1 h).2.2
  · obtain ⟨rest, h⟩ := h
    exact encode_inj_of_append_eq hm hn (h.trans (List.append_nil _).symm)

/-- Two frames are in the output queue and a third one waits. -/
theorem decode_prefix_code_waiting :
    let m := Machine.initial.run 95
    m.output.size = 2 ∧ m.core.bus.dsp.frames.size = 1 ∧ m.Representable ∧ m.Valid ∧
      decode (encode m ++ [7]) = .ok m := by
  intro m
  have hs : m.output.size = 2 ∧ m.core.bus.dsp.frames.size = 1 := by decide +kernel
  have hv : m.Valid := by decide +kernel
  have he : m.executed < countLimit := by decide +kernel
  have ho : m.output.size < countLimit := by decide +kernel
  have hi : ∀ image ∈ m.ramImage, image.size < countLimit := by
    intro image h
    have hn : m.ramImage = none := rfl
    rw [hn] at h
    exact nomatch h
  have hr : m.Representable := hv.representable he ho hi
  exact ⟨hs.1, hs.2, hr, hv, decode_prefix_code.2.1 m hr hv [7]⟩

end Snapshot

namespace Machine

theorem load_eq_ok {bytes : List UInt8} {m : Machine} : load bytes = .ok m ↔ Snapshot.decode bytes = .ok m := by
  unfold load
  cases Snapshot.decode bytes with
  | error fault => exact ⟨fun h ↦ (nomatch h), fun h ↦ (nomatch h)⟩
  | ok n => exact ⟨fun h ↦ congrArg Except.ok (Except.ok.inj h), fun h ↦ congrArg Except.ok (Except.ok.inj h)⟩

theorem Valid.load_save {m : Machine} (h : m.Valid) (hr : m.Representable) : load m.save = .ok m :=
  load_eq_ok.2 (Snapshot.decode_eq_ok.2 ⟨hr, h, List.prefix_rfl⟩)

theorem exists_load_save_iff {m : Machine} (hr : m.Representable) : (∃ n, load m.save = .ok n) ↔ m.Valid := by
  constructor
  · intro h
    obtain ⟨n, h⟩ := h
    obtain ⟨hn, hv, rest, hp⟩ := Snapshot.decode_eq_ok.1 (load_eq_ok.1 h)
    have he : n = m := Snapshot.encode_inj_of_append_eq hn hr (hp.trans (List.append_nil _).symm)
    exact he ▸ hv
  · intro h
    exact ⟨m, h.load_save hr⟩

end Machine

end SoundUnit
