import SoundUnit.Machine.Core
import SoundUnit.Proofs.Dsp.Voices

namespace SoundUnit

namespace Location

/-- The addresses that select a location, as numbers. -/
def Covers : Location → Nat → Prop
  | ram, n => (n < 0xF0 ∨ n = 0xF8 ∨ n = 0xF9 ∨ 0xFF < n) ∧ n < 0xFFC0
  | test, n => n = 0xF0
  | control, n => n = 0xF1
  | dspAddress, n => n = 0xF2
  | dspData, n => n = 0xF3
  | port i, n => n = 0xF4 + i
  | timerTarget i, n => n = 0xFA + i
  | timerOutput i, n => n = 0xFD + i
  | boot i, n => n = 0xFFC0 + i

instance (l : Location) (n : Nat) : Decidable (l.Covers n) :=
  match l with
  | ram => inferInstanceAs (Decidable (_ ∧ _))
  | test | control | dspAddress | dspData => inferInstanceAs (Decidable (n = _))
  | port _ | timerTarget _ | timerOutput _ | boot _ => inferInstanceAs (Decidable (n = _))

theorem covers_devices : ∀ i : Fin 16, (devices.get i).Covers (0xF0 + i) := by decide

theorem ofAddress_of_device {addr : UInt16} {i : Fin 16} (h : addr.toNat = 0xF0 + i) :
    ofAddress addr = devices.get i := by
  unfold ofAddress
  rw [dif_neg (by omega), dif_pos (by omega)]
  simp only [h, Nat.add_sub_cancel_left]
  rfl

theorem covers_ofAddress (addr : UInt16) : (ofAddress addr).Covers addr.toNat := by
  by_cases hd : 0xF0 ≤ addr.toNat ∧ addr.toNat < 0x100
  · obtain ⟨i, hi⟩ : ∃ i : Fin 16, addr.toNat = 0xF0 + i :=
      ⟨⟨addr.toNat - 0xF0, by omega⟩, by dsimp only; omega⟩
    rw [ofAddress_of_device hi, hi]
    exact covers_devices i
  · unfold ofAddress
    simp only [dif_neg hd]
    split
    next hb =>
      simp only [Covers]
      omega
    next hb =>
      simp only [Covers]
      omega

theorem Covers.unique {l l' : Location} {n : Nat} (h : l.Covers n) (h' : l'.Covers n) : l = l' := by
  cases l <;> cases l' <;>
    simp only [Covers, port.injEq, timerTarget.injEq, timerOutput.injEq, boot.injEq, Fin.ext_iff, reduceCtorEq]
      at h h' ⊢ <;>
    omega

theorem ofAddress_eq_iff {addr : UInt16} {l : Location} : ofAddress addr = l ↔ l.Covers addr.toNat := by
  constructor
  · intro h
    rw [← h]
    exact covers_ofAddress addr
  · intro h
    exact (covers_ofAddress addr).unique h

theorem eq_of_ofAddress_eq {a x : UInt16} (h : ofAddress a = ofAddress x) (hr : ofAddress a ≠ ram) : a = x := by
  have ha := covers_ofAddress a
  have hx := covers_ofAddress x
  rw [← h] at hx
  rw [← UInt16.toNat_inj]
  cases hl : ofAddress a with
  | ram => exact absurd hl hr
  | _ =>
    rw [hl] at ha hx
    exact ha.trans hx.symm

end Location

open Location

def outputAddress (i : Fin 3) : UInt16 := 0xFD + UInt16.ofNat i

theorem Location.ofAddress_eq_timerOutput (addr : UInt16) (i : Fin 3) :
    ofAddress addr = .timerOutput i ↔ addr = outputAddress i := by
  have hp : ∀ i : Fin 3, (outputAddress i).toNat = 0xFD + i.val := by decide
  rw [ofAddress_eq_iff, ← UInt16.toNat_inj, hp]
  rfl

namespace Bus

/-- Addresses at which a write reaches memory: all but the devices, two of which do not exist. -/
def Writable (addr : UInt16) : Prop := ¬ (0xF0 ≤ addr ∧ addr ≤ 0xFF) ∨ addr = 0xF8 ∨ addr = 0xF9

instance (addr : UInt16) : Decidable (Writable addr) := inferInstanceAs (Decidable (_ ∨ _ ∨ _))

/-- A write to the address `addr` can show at the address `x`: at the same one, at the data register of the sound
generator after another register is selected, and at ports, timers and boot program after a write to the control
register. -/
def ShowsAt (addr x : UInt16) : Prop :=
  x = addr ∨ addr = 0xF2 ∧ x = 0xF3 ∨
    addr = 0xF1 ∧ (0xF4 ≤ x ∧ x ≤ 0xF7 ∨ 0xFD ≤ x ∧ x ≤ 0xFF ∨ 0xFFC0 ≤ x)

instance (addr x : UInt16) : Decidable (ShowsAt addr x) := inferInstanceAs (Decidable (_ ∨ _ ∨ _))

/-- The same devices after the output at an address has been cleared, if there is a timer's output at it. -/
def clearOutputAt (b : Bus) (addr : UInt16) : Bus :=
  { b with
    timers := Vector.ofFn fun i ↦
      if addr = outputAddress i then { b.timers.get i with output := 0 } else b.timers.get i }

variable (b : Bus) (addr x : UInt16) (data : UInt8)

theorem clearOutputAt_of_ne (h : ∀ i, addr ≠ outputAddress i) : b.clearOutputAt addr = b := by
  have ht : (b.clearOutputAt addr).timers = b.timers := by
    ext i hi
    simp only [clearOutputAt, h, if_false, Vector.getElem_ofFn]
    rfl
  exact congrArg (fun timers ↦ { b with timers }) ht

theorem clearOutputAt_timer (i : Fin 3) :
    b.clearOutputAt (outputAddress i) =
      { b with timers := b.timers.setIfInBounds i { b.timers.get i with output := 0 } } := by
  have hi : ∀ i j : Fin 3, outputAddress i = outputAddress j ↔ i = j := by decide
  unfold clearOutputAt
  congr 1
  ext j hj
  simp only [hi, Vector.getElem_ofFn]
  rw [Vector.getElem_setIfInBounds hj]
  simp only [Fin.ext_iff]
  split
  next he =>
    obtain rfl : i = ⟨j, hj⟩ := Fin.ext he
    rfl
  next he => rfl

theorem read_eq : b.read addr = (b.peek addr, b.clearOutputAt addr) := by
  cases hl : ofAddress addr with
  | timerOutput i =>
    obtain rfl := (ofAddress_eq_timerOutput addr i).1 hl
    rw [clearOutputAt_timer]
    simp only [read, peek, hl]
    rfl
  | _ =>
    rw [clearOutputAt_of_ne]
    · simp only [read, hl]
    · intro i hi
      rw [← ofAddress_eq_timerOutput, hl] at hi
      cases hi

theorem writable_iff : Writable addr ↔ ofAddress addr = .ram ∨ ∃ i, ofAddress addr = .boot i := by
  have h := covers_ofAddress addr
  simp only [Writable, UInt16.le_iff_toNat_le, ← UInt16.toNat_inj, UInt16.reduceToNat]
  cases hl : ofAddress addr with
  | ram =>
    simp only [hl, Covers] at h
    simp only [true_or, iff_true]
    omega
  | boot i =>
    simp only [hl, Covers] at h
    simp only [boot.injEq, exists_eq', or_true, iff_true]
    omega
  | _ =>
    simp only [hl, Covers] at h
    simp only [reduceCtorEq, exists_false, or_self, iff_false]
    omega

theorem ram_write : (b.write addr data).ram = if Writable addr then b.ram.write addr data else b.ram := by
  simp only [writable_iff]
  unfold write
  cases ofAddress addr <;> simp [writeControl]

theorem dsp_write :
    (b.write addr data).dsp = if ofAddress addr = .dspData then b.dsp.write b.dspAddress data else b.dsp := by
  unfold write
  cases ofAddress addr <;> simp [writeControl]

theorem peek_withRam (ram : Ram) (h : ram.read x = b.ram.read x) : { b with ram }.peek x = b.peek x := by
  unfold peek
  cases ofAddress x with
  | ram => exact h
  | boot i =>
    simp only [h]
    rfl
  | _ => rfl

theorem peek_writeControl (hp : ∀ i, ofAddress x ≠ .port i) (ht : ∀ i, ofAddress x ≠ .timerOutput i)
    (hb : ∀ i, ofAddress x ≠ .boot i) : (b.writeControl data).peek x = b.peek x := by
  unfold peek
  cases hx : ofAddress x with
  | port i => exact absurd hx (hp i)
  | timerOutput i => exact absurd hx (ht i)
  | boot i => exact absurd hx (hb i)
  | _ => rfl

theorem peek_withDspAddress (h : ofAddress x ≠ .dspAddress) (h' : ofAddress x ≠ .dspData) :
    { b with dspAddress := data }.peek x = b.peek x := by
  unfold peek
  cases hx : ofAddress x with
  | dspAddress => exact absurd hx h
  | dspData => exact absurd hx h'
  | _ => rfl

theorem peek_withDsp (dsp : Dsp) (h : ofAddress x ≠ .dspData) : { b with dsp }.peek x = b.peek x := by
  unfold peek
  cases hx : ofAddress x with
  | dspData => exact absurd hx h
  | _ => rfl

theorem peek_withTarget (i : Fin 3) :
    { b with timers := b.timers.setIfInBounds i { b.timers.get i with target := data } }.peek x = b.peek x := by
  unfold peek
  cases ofAddress x with
  | timerOutput j =>
    simp only [get_setIfInBounds]
    split
    next he => rw [he]
    next => rfl
  | _ => rfl

theorem peek_write {addr x : UInt16} (h : ¬ ShowsAt addr x) : (b.write addr data).peek x = b.peek x := by
  have hne : x ≠ addr := fun e ↦ h (.inl e)
  have ha := covers_ofAddress addr
  have hx := covers_ofAddress x
  simp only [ShowsAt, ← UInt16.toNat_inj, UInt16.le_iff_toNat_le, UInt16.reduceToNat] at h
  unfold write
  cases hl : ofAddress addr with
  | ram | boot _ => exact b.peek_withRam x _ (b.ram.read_write_of_ne hne data)
  | control =>
    simp only [hl, Covers] at ha
    refine b.peek_writeControl x data ?_ ?_ ?_ <;>
    · intro i hi
      simp only [hi, Covers] at hx
      omega
  | dspAddress =>
    simp only [hl, Covers] at ha
    refine b.peek_withDspAddress x data ?_ ?_ <;>
    · intro hi
      simp only [hi, Covers] at hx
      omega
  | dspData =>
    refine b.peek_withDsp x _ ?_
    intro hi
    exact hne (eq_of_ofAddress_eq (hi.trans hl.symm) (by rw [hi]; simp))
  | timerTarget i => exact b.peek_withTarget x data i
  | _ => rfl

end Bus

end SoundUnit
