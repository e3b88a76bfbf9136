import SoundUnit.Proofs.Checked.Dsp
import SoundUnit.Proofs.Validity.Bus

namespace SoundUnit

open Checked

namespace Timer

def step? (t : Timer) : Option Timer :=
  if t.stage + 1 = t.target then do
    let output ← below byteBound (t.output.toNat + 1)
    return { t with stage := 0, output := UInt8.ofNat output &&& 0xF }
  else some { t with stage := t.stage + 1 }

def steps? : Nat → Timer → Option Timer
  | 0, t => some t
  | n + 1, t => do
    let rest ← difference t.elapsed t.period
    let t ← (t.atTime rest).step?
    steps? n t

def clock? (t : Timer) (clocks : Nat) : Option Timer :=
  if t.enabled then do
    let total ← below sizeBound (t.elapsed + clocks)
    let n ← quotient total t.period
    steps? n (t.atTime total)
  else some t

variable {t : Timer}

theorem step?_eq (h : t.output ≤ 0xF) : t.step? = some t.step := by
  have hle : t.output.toNat ≤ 15 := UInt8.le_iff_toNat_le.1 h
  have ho : UInt8.ofNat (t.output.toNat + 1) = t.output + 1 := by
    rw [← UInt8.toNat_inj, UInt8.toNat_add, UInt8.toNat_ofNat']
    rfl
  unfold step? step
  dsimp only
  split
  · rw [below_of (by unfold byteBound; omega), Option.bind_eq_bind, Option.bind_some, ho]
    rfl
  · rfl

theorem steps?_succ (n elapsed : Nat) (t : Timer) :
    steps? (n + 1) (t.atTime elapsed) =
      (difference elapsed t.period).bind fun rest ↦ (t.atTime rest).step?.bind (steps? n) := rfl

theorem steps?_eq (n rest : Nat) (h : t.output ≤ 0xF) :
    steps? n (t.atTime (rest + n * t.period)) = some (steps n (t.atTime rest)) := by
  induction n generalizing t with
  | zero => rw [Nat.zero_mul, Nat.add_zero, steps?, steps]
  | succ n ih =>
    have hp : t.step.period = t.period := (steps_keeps 1 t).1
    have hd : difference (rest + (n + 1) * t.period) t.period = some (rest + n * t.period) :=
      difference_of_add (by rw [Nat.succ_mul]; omega)
    have hs := step?_eq (t := t.atTime (rest + n * t.period)) h
    rw [step_atTime, ← hp] at hs
    rw [steps?_succ, hd, Option.bind_some, ← hp, hs, Option.bind_some, ih (output_step_le h), steps, step_atTime]

theorem clock?_eq {period clocks : Nat} (h : t.Valid period) (hp : period ≤ 128) (hc : clocks ≤ 12) :
    t.clock? clocks = some (t.clock clocks) := by
  obtain ⟨rfl, hlt, ho⟩ := h
  have hm : (t.elapsed + clocks) % t.period + (t.elapsed + clocks) / t.period * t.period = t.elapsed + clocks := by
    rw [Nat.mul_comm]
    exact Nat.mod_add_div _ _
  have hs := steps?_eq ((t.elapsed + clocks) / t.period) ((t.elapsed + clocks) % t.period) ho
  rw [hm] at hs
  unfold clock? clock
  split
  · rw [below_of (by unfold sizeBound; omega)]
    simp only [quotient_of (show t.period ≠ 0 by omega), hs, Option.bind_eq_bind, Option.bind_some]
    rfl
  · rfl

end Timer

namespace DspRegister

def InRow (row : Fin 8) : DspRegister → Bool
  | voice v _ => v = row
  | tap i => i = row
  | global _ => true

theorem columns_inRow : ∀ (column : Fin 16) (row : Fin 8), (columns.get column row).InRow row = true := by decide

theorem ofAddress_inRow (addr : UInt8) : (ofAddress addr).InRow (Fin.ofNat 8 (addr.toNat / 16)) = true :=
  columns_inRow _ _

variable {addr : UInt8}

theorem row_of_voice {v : Fin 8} {r : VoiceRegister} (h : ofAddress addr = voice v r) :
    addr.toNat / 16 % 8 = v.val := by
  have hr := ofAddress_inRow addr
  rw [h] at hr
  exact congrArg Fin.val (of_decide_eq_true hr).symm

theorem row_of_tap {i : Fin 8} (h : ofAddress addr = tap i) : addr.toNat / 16 % 8 = i.val := by
  have hr := ofAddress_inRow addr
  rw [h] at hr
  exact congrArg Fin.val (of_decide_eq_true hr).symm

end DspRegister

namespace Dsp

def read? (d : Dsp) (addr : UInt8) : Option UInt8 :=
  match DspRegister.ofAddress addr with
  | .voice _ r => do
    let voice ← d.voices[addr.toNat % 128 / 16]?
    return voice.readRegister r
  | .tap _ => do
    let tap ← d.echo.taps[addr.toNat / 16 % 8]?
    return tap.toUInt8
  | .global r => some (d.readGlobal r)

def write? (d : Dsp) (addr data : UInt8) : Option Dsp :=
  if addr < 0x80 then
    match DspRegister.ofAddress addr with
    | .voice _ r => do
      let voice ← d.voices[addr.toNat / 16]?
      return { d with voices := d.voices.setIfInBounds (addr.toNat / 16) (voice.writeRegister data r) }
    | .tap _ => do
      let _ ← d.echo.taps[addr.toNat / 16 % 8]?
      return { d with echo := { d.echo with taps := d.echo.taps.setIfInBounds (addr.toNat / 16 % 8) data.toInt8 } }
    | .global r => some (d.writeGlobal data r)
  else some d

theorem read?_eq (d : Dsp) (addr : UInt8) : d.read? addr = some (d.read addr) := by
  unfold read? read
  cases hr : DspRegister.ofAddress addr with
  | voice v r =>
    have hv := DspRegister.row_of_voice hr
    have hi : addr.toNat % 128 / 16 = v.val := by omega
    dsimp only
    rw [hi, Vector.getElem?_eq_getElem v.isLt]
    rfl
  | tap i =>
    dsimp only
    rw [DspRegister.row_of_tap hr, Vector.getElem?_eq_getElem i.isLt]
    rfl
  | global r => rfl

theorem write?_eq (d : Dsp) (addr data : UInt8) : d.write? addr data = some (d.write addr data) := by
  unfold write? write
  split
  next hlt =>
    have hlt : addr.toNat < 128 := UInt8.lt_iff_toNat_lt.1 hlt
    cases hr : DspRegister.ofAddress addr with
    | voice v r =>
      have hv := DspRegister.row_of_voice hr
      have hi : addr.toNat / 16 = v.val := by omega
      dsimp only
      rw [hi, Vector.getElem?_eq_getElem v.isLt]
      rfl
    | tap i =>
      dsimp only
      rw [DspRegister.row_of_tap hr, Vector.getElem?_eq_getElem i.isLt]
      rfl
    | global r => rfl
  next => rfl

end Dsp

namespace Location

/-- Addresses of places that a device finds by their number. -/
def place : Location → Option Nat
  | port i => some (0xF4 + i.val)
  | timerOutput i => some (0xFD + i.val)
  | boot i => some (0xFFC0 + i.val)
  | _ => none

theorem place_devices : ∀ i : Fin 16, ∀ n ∈ (devices.get i).place, n = 0xF0 + i.val := by decide

theorem place_ofAddress (addr : UInt16) : ∀ n ∈ (ofAddress addr).place, n = addr.toNat := by
  intro n hn
  unfold ofAddress at hn
  split at hn
  next hb =>
    have hn : 0xFFC0 + (addr.toNat - 0xFFC0) = n := Option.some.inj hn
    omega
  next =>
    split at hn
    next hd =>
      have hp := place_devices ⟨addr.toNat - 0xF0, by omega⟩ n hn
      dsimp only at hp
      omega
    next => cases hn

end Location

namespace Bus

def peek? (b : Bus) (addr : UInt16) : Option UInt8 :=
  match Location.ofAddress addr with
  | .ram => b.ram.read? addr
  | .test => some 0
  | .control => some 0
  | .dspAddress => some b.dspAddress
  | .dspData => b.dsp.read? b.dspAddress
  | .port _ => do
    let i ← difference addr.toNat 0xF4
    b.portsIn[i]?
  | .timerTarget _ => some 0
  | .timerOutput _ => do
    let i ← difference addr.toNat 0xFD
    let timer ← b.timers[i]?
    return timer.output
  | .boot _ =>
    if b.bootMapped then do
      let i ← difference addr.toNat 0xFFC0
      b.bootRom.bytes.data[i]?
    else b.ram.read? addr

def read? (b : Bus) (addr : UInt16) : Option (UInt8 × Bus) :=
  match Location.ofAddress addr with
  | .timerOutput _ => some (b.read addr)
  | _ => do
    let data ← b.peek? addr
    return (data, b)

def write? (b : Bus) (addr : UInt16) (data : UInt8) : Option Bus :=
  match Location.ofAddress addr with
  | .ram => do
    let ram ← b.ram.write? addr data
    return { b with ram }
  | .dspData => do
    let dsp ← b.dsp.write? b.dspAddress data
    return { b with dsp }
  | .port _ => do
    let i ← difference addr.toNat 0xF4
    let _ ← b.portsOut[i]?
    return { b with portsOut := b.portsOut.setIfInBounds i data }
  | .boot _ => do
    let ram ← b.ram.write? addr data
    return { b with ram }
  | _ => some (b.write addr data)

def clock? (b : Bus) (clocks : Nat) : Option Bus := do
  let timers ← Vector.ofFnM fun i ↦ (b.timers.get i).clock? clocks
  let (dsp, ram) ← b.dsp.clock? clocks b.ram
  return { b with timers, dsp, ram }

def clearEcho? (b : Bus) : Option Bus := do
  let (dsp, ram) ← b.dsp.clearEcho? b.ram
  return { b with dsp, ram }

theorem peek?_eq (b : Bus) (addr : UInt16) : b.peek? addr = some (b.peek addr) := by
  have hp := Location.place_ofAddress addr
  unfold peek? peek
  cases hl : Location.ofAddress addr with
  | ram => exact Ram.read?_eq _ _
  | dspData => exact Dsp.read?_eq _ _
  | port i =>
    rw [hl] at hp
    have hd := difference_of_add (hp _ rfl)
    dsimp only
    rw [hd, Option.bind_eq_bind, Option.bind_some]
    exact Vector.getElem?_eq_getElem i.isLt
  | timerOutput i =>
    rw [hl] at hp
    have hd := difference_of_add (hp _ rfl)
    dsimp only
    rw [hd, Option.bind_eq_bind, Option.bind_some, Vector.getElem?_eq_getElem i.isLt]
    rfl
  | boot i =>
    rw [hl] at hp
    have hd := difference_of_add (hp _ rfl)
    have hi : i.val < b.bootRom.bytes.data.size := by
      change i.val < b.bootRom.bytes.size
      rw [b.bootRom.size_eq]
      exact i.isLt
    dsimp only
    split
    · rw [hd, Option.bind_eq_bind, Option.bind_some]
      exact Array.getElem?_eq_getElem hi
    · exact Ram.read?_eq _ _
  | _ => rfl

theorem read?_eq (b : Bus) (addr : UInt16) : b.read? addr = some (b.read addr) := by
  unfold read? read
  cases Location.ofAddress addr with
  | timerOutput i => rfl
  | _ =>
    dsimp only
    rw [peek?_eq]
    rfl

theorem write?_eq (b : Bus) (addr : UInt16) (data : UInt8) : b.write? addr data = some (b.write addr data) := by
  have hp := Location.place_ofAddress addr
  unfold write? write
  cases hl : Location.ofAddress addr with
  | ram =>
    dsimp only
    rw [Ram.write?_eq]
    rfl
  | dspData =>
    dsimp only
    rw [Dsp.write?_eq]
    rfl
  | port i =>
    rw [hl] at hp
    have hd := difference_of_add (hp _ rfl)
    dsimp only
    rw [hd, Option.bind_eq_bind, Option.bind_some, Vector.getElem?_eq_getElem i.isLt]
    rfl
  | boot i =>
    dsimp only
    rw [Ram.write?_eq]
    rfl
  | _ => rfl

theorem ofFn_timers (b : Bus) (f : Timer → Timer) : Vector.ofFn (fun i ↦ f (b.timers.get i)) = b.timers.map f := by
  ext i hi
  rw [Vector.getElem_ofFn, Vector.getElem_map]
  rfl

theorem clock?_eq {b : Bus} (h : b.DevicesValid) {clocks : Nat} (hc : clocks ≤ 12) :
    b.clock? clocks = some (b.clock clocks) := by
  have hp : ∀ i : Fin 3, timerPeriods.get i ≤ 128 := by decide
  have ht := ofFnM_of fun i ↦ Timer.clock?_eq (h.1 i) (hp i) hc
  rw [b.ofFn_timers fun t ↦ t.clock clocks] at ht
  have hd := Dsp.clock?_eq h.2 hc b.ram
  unfold clock?
  simp only [ht, hd, Option.bind_eq_bind, Option.bind_some]
  rfl

theorem clearEcho?_eq (b : Bus) : b.clearEcho? = some b.clearEcho := by
  unfold clearEcho?
  rw [Dsp.clearEcho?_eq]
  rfl

end Bus

end SoundUnit
