import SoundUnit.Proofs.Bus.AddressMap

namespace SoundUnit

open Word

theorem Voice.readRegister_writeRegister (v : Voice) (data : UInt8) (r q : VoiceRegister) :
    (v.writeRegister data r).readRegister q = if r = q then data else v.readRegister q := by
  cases r <;> cases q <;>
    simp only [writeRegister, readRegister, setLow, setHigh, low_word, high_word, UInt8.toUInt8_toInt8, reduceCtorEq,
      if_true, if_false]

def VoiceRegister.column : VoiceRegister → Nat
  | volumeLeft => 0x0
  | volumeRight => 0x1
  | pitchLow => 0x2
  | pitchHigh => 0x3
  | source => 0x4
  | adsrLow => 0x5
  | adsrHigh => 0x6
  | gain => 0x7
  | envelopeReadback => 0x8
  | outputReadback => 0x9
  | spareA => 0xA
  | spareB => 0xB
  | spareE => 0xE

def GlobalRegister.address : GlobalRegister → Nat
  | mainVolumeLeft => 0x0C
  | mainVolumeRight => 0x1C
  | echoVolumeLeft => 0x2C
  | echoVolumeRight => 0x3C
  | keyOn => 0x4C
  | keyOff => 0x5C
  | flags => 0x6C
  | ended => 0x7C
  | echoFeedback => 0x0D
  | spare => 0x1D
  | pitchModulation => 0x2D
  | noiseEnable => 0x3D
  | echoEnable => 0x4D
  | directory => 0x5D
  | echoStart => 0x6D
  | echoDelay => 0x7D

namespace DspRegister

def address : DspRegister → Nat
  | voice v r => 16 * v + r.column
  | tap i => 16 * i + 0xF
  | global r => r.address

def written (data : UInt8) (r : DspRegister) : UInt8 := if r = global .ended then 0 else data

theorem address_columns : ∀ (column : Fin 16) (row : Fin 8), (columns.get column row).address = 16 * row + column := by
  decide +kernel

theorem address_ofAddress (addr : UInt8) : (ofAddress addr).address = addr.toNat % 128 := by
  have h := address_columns (Fin.ofNat 16 addr.toNat) (Fin.ofNat 8 (addr.toNat / 16))
  simp only [Fin.ofNat] at h
  refine h.trans ?_
  omega

theorem ofAddress_eq_iff {a q : UInt8} : ofAddress a = ofAddress q ↔ a.toNat % 128 = q.toNat % 128 := by
  constructor
  · intro h
    rw [← address_ofAddress, h, address_ofAddress]
  · intro h
    have hc : Fin.ofNat 16 a.toNat = Fin.ofNat 16 q.toNat := by
      simp only [Fin.ofNat, Fin.mk.injEq]
      omega
    have hr : Fin.ofNat 8 (a.toNat / 16) = Fin.ofNat 8 (q.toNat / 16) := by
      simp only [Fin.ofNat, Fin.mk.injEq]
      omega
    unfold ofAddress
    rw [hc, hr]

theorem ofAddress_eq_ended {addr : UInt8} : ofAddress addr = global .ended ↔ addr.toNat % 128 = 0x7C :=
  ofAddress_eq_iff (q := 0x7C)

end DspRegister

namespace Dsp

variable (d : Dsp) (data : UInt8)

theorem readGlobal_writeGlobal (r q : GlobalRegister) :
    (d.writeGlobal data r).readGlobal q = if r = q then (DspRegister.global r).written data else d.readGlobal q := by
  cases r <;> cases q <;>
    simp only [writeGlobal, readGlobal, DspRegister.written, DspRegister.global.injEq, UInt8.toUInt8_toInt8,
      reduceCtorEq, if_true, if_false]

theorem writeGlobal_voices (r : GlobalRegister) : (d.writeGlobal data r).voices = d.voices := by
  cases r <;> rfl

theorem writeGlobal_taps (r : GlobalRegister) : (d.writeGlobal data r).echo.taps = d.echo.taps := by
  cases r <;> rfl

theorem readRegister_writeRegister (r q : DspRegister) :
    (d.writeRegister data r).readRegister q = if r = q then r.written data else d.readRegister q := by
  cases r with
  | voice v r =>
    cases q with
    | voice w q =>
      simp only [writeRegister, readRegister, get_setIfInBounds, DspRegister.voice.injEq, DspRegister.written,
        reduceCtorEq, if_false]
      by_cases hv : v = w
      · rw [if_pos hv, Voice.readRegister_writeRegister, hv]
        simp only [true_and]
      · rw [if_neg hv, if_neg fun h ↦ hv h.1]
    | tap i => rfl
    | global q => cases q <;> rfl
  | tap i =>
    cases q with
    | voice w q => rfl
    | tap j =>
      simp only [writeRegister, readRegister, get_setIfInBounds, DspRegister.tap.injEq, DspRegister.written,
        reduceCtorEq, if_false]
      split
      next => exact UInt8.toUInt8_toInt8 data
      next => rfl
    | global q => cases q <;> rfl
  | global r =>
    cases q with
    | voice w q =>
      simp only [writeRegister, readRegister, writeGlobal_voices, reduceCtorEq, if_false]
    | tap j =>
      simp only [writeRegister, readRegister, writeGlobal_taps, reduceCtorEq, if_false]
    | global q =>
      simp only [writeRegister, readRegister, readGlobal_writeGlobal, DspRegister.global.injEq]

variable {addr : UInt8}

theorem write_of_lt (h : addr < 0x80) : d.write addr data = d.writeRegister data (.ofAddress addr) := if_pos h

theorem write_of_le (h : 0x80 ≤ addr) : d.write addr data = d := if_neg (UInt8.not_lt.2 h)

theorem read_write (h : addr < 0x80) (q : UInt8) :
    (d.write addr data).read q =
      if q % 128 = addr then (if addr = 0x7C then 0 else data) else d.read q := by
  have ha : addr.toNat < 128 := UInt8.lt_iff_toNat_lt.1 h
  have hq : DspRegister.ofAddress addr = DspRegister.ofAddress q ↔ q % 128 = addr := by
    rw [DspRegister.ofAddress_eq_iff, ← UInt8.toNat_inj, UInt8.toNat_mod, Nat.mod_eq_of_lt ha]
    exact eq_comm
  have he : DspRegister.ofAddress addr = .global .ended ↔ addr = 0x7C := by
    rw [DspRegister.ofAddress_eq_ended, ← UInt8.toNat_inj, Nat.mod_eq_of_lt ha]
    rfl
  rw [d.write_of_lt data h]
  unfold read
  simp only [readRegister_writeRegister, DspRegister.written, hq, he]

end Dsp

namespace Bus

/-- The processor selects a register of the sound generator and writes to it. -/
def writeDsp (b : Bus) (r data : UInt8) : Bus := (b.write 0xF2 r).write 0xF3 data

def readDsp (b : Bus) (q : UInt8) : UInt8 := ((b.write 0xF2 q).read 0xF3).1

variable (b : Bus) (r data q : UInt8)

theorem writeDsp_eq : b.writeDsp r data = { b with dspAddress := r, dsp := b.dsp.write r data } := rfl

theorem readDsp_eq : b.readDsp q = b.dsp.read q := rfl

/-- The 128 registers are independent of each other, and the addresses above them only show them. -/
theorem registers_independent :
    (r < 0x80 → ∀ q, (b.writeDsp r data).readDsp q =
      if q % 128 = r then (if r = 0x7C then 0 else data) else b.readDsp q) ∧
    (0x80 ≤ r → (b.writeDsp r data).dsp = b.dsp ∧ ∀ q, (b.writeDsp r data).readDsp q = b.readDsp q) := by
  simp only [readDsp_eq, writeDsp_eq]
  constructor
  · intro h q
    exact b.dsp.read_write data h q
  · intro h
    rw [b.dsp.write_of_le data h]
    exact ⟨rfl, fun _ ↦ rfl⟩

theorem keyOn_register_independent :
    let b : Bus := { ram := .zero, bootRom := .standard }
    (b.writeDsp 0x4C 0x21).readDsp 0xCC = 0x21 ∧ (b.writeDsp 0x7C 0x21).readDsp 0x7C = 0 ∧
      (b.writeDsp 0xCC 0x21).dsp.keyOn = b.dsp.keyOn := by
  intro b
  refine ⟨?_, ?_, ?_⟩
  · exact (registers_independent b 0x4C 0x21).1 (by decide) 0xCC
  · exact (registers_independent b 0x7C 0x21).1 (by decide) 0x7C
  · exact congrArg Dsp.keyOn ((registers_independent b 0xCC 0x21).2 (by decide)).1

end Bus

end SoundUnit
