import SoundUnit.Dsp.Echo
import SoundUnit.Proofs.Dsp.Mixing

namespace SoundUnit

namespace Ram

theorem read_write (ram : Ram) (addr a : UInt16) (data : UInt8) :
    (ram.write addr data).read a = if a = addr then data else ram.read a := by
  split
  next h => rw [h, read_write_self]
  next h => exact read_write_of_ne _ h _

theorem toNat_sub_succ {a start : UInt16} (h : a ≠ start) : (a - (start + 1)).toNat + 1 = (a - start).toNat := by
  have ha := a.toNat_lt
  have hs := start.toNat_lt
  rw [Ne, ← UInt16.toNat_inj] at h
  rw [UInt16.toNat_sub, UInt16.toNat_sub, UInt16.toNat_add]
  change (65536 - (start.toNat + 1) % 65536 + a.toNat) % 65536 + 1 = (65536 - start.toNat + a.toNat) % 65536
  omega

theorem read_clear (ram : Ram) (start a : UInt16) (n : Nat) :
    (ram.clear start n).read a = if (a - start).toNat < n then 0 else ram.read a := by
  induction n generalizing ram start with
  | zero => simp [clear]
  | succ n ih =>
    rw [clear, ih, read_write]
    by_cases h : a = start
    · simp [h]
    · have hd := toNat_sub_succ h
      simp only [h, if_false, ← hd, Nat.add_lt_add_iff_right]

end Ram

namespace Echo

variable {ram ram' : Ram} {addr a : UInt16}

theorem toNat_add_sub (addr : UInt16) {i : Nat} (h : i < 65536) : (addr + UInt16.ofNat i - addr).toNat = i := by
  have ha := addr.toNat_lt
  rw [UInt16.toNat_sub, UInt16.toNat_add, UInt16.toNat_ofNat']
  omega

theorem ne_add_of_far {n i : Nat} (h : n ≤ (a - addr).toNat) (hi : i < n) (hn : n ≤ 65536) :
    a ≠ addr + UInt16.ofNat i := by
  rintro rfl
  rw [toNat_add_sub addr (by omega)] at h
  omega

theorem read_writeSample (ram : Ram) (sample : Int) (h : 2 ≤ (a - addr).toNat) :
    (writeSample ram addr sample).read a = ram.read a := by
  have h₀ : a ≠ addr := by simpa using ne_add_of_far (i := 0) h (by decide) (by decide)
  have h₁ : a ≠ addr + 1 := ne_add_of_far (i := 1) h (by decide) (by decide)
  unfold writeSample
  dsimp only
  rw [Ram.read_write_of_ne _ h₁, Ram.read_write_of_ne _ h₀]

theorem read_writeFrame (ram : Ram) (frame : Stereo Int) (h : 4 ≤ (a - addr).toNat) :
    (writeFrame ram addr frame).read a = ram.read a := by
  have h₂ : 2 ≤ (a - (addr + 2)).toNat := by
    have ha := a.toNat_lt
    have haddr := addr.toNat_lt
    rw [UInt16.toNat_sub] at h ⊢
    rw [UInt16.toNat_add]
    change 2 ≤ (65536 - (addr.toNat + 2) % 65536 + a.toNat) % 65536
    omega
  unfold writeFrame
  rw [read_writeSample _ _ h₂, read_writeSample _ _ (by omega)]

theorem readSample_congr (h : ∀ i < 2, ram.read (addr + UInt16.ofNat i) = ram'.read (addr + UInt16.ofNat i)) :
    readSample ram addr = readSample ram' addr := by
  have h₀ : ram.read addr = ram'.read addr := by simpa using h 0 (by decide)
  have h₁ : ram.read (addr + 1) = ram'.read (addr + 1) := h 1 (by decide)
  unfold readSample
  rw [h₀, h₁]

theorem readFrame_congr (h : ∀ i < 4, ram.read (addr + UInt16.ofNat i) = ram'.read (addr + UInt16.ofNat i)) :
    readFrame ram addr = readFrame ram' addr := by
  have hr : readSample ram (addr + 2) = readSample ram' (addr + 2) := by
    refine readSample_congr fun i hi ↦ ?_
    have he : addr + 2 + UInt16.ofNat i = addr + UInt16.ofNat (2 + i) := by
      rw [UInt16.add_assoc, UInt16.ofNat_add]
      rfl
    rw [he]
    exact h (2 + i) (by omega)
  unfold readFrame
  rw [readSample_congr fun i hi ↦ h i (by omega), hr]

theorem readSample_writeSample (ram : Ram) (addr : UInt16) {sample : Int} (h : -32768 ≤ sample ∧ sample ≤ 32767) :
    readSample (writeSample ram addr sample) addr = sample := by
  have hne : addr ≠ addr + 1 := by simp
  have hs : (Int16.ofInt sample).toInt = sample := Int16.toInt_ofInt_of_le (by omega) (by omega)
  unfold readSample writeSample
  dsimp only
  rw [Ram.read_write_self, Ram.read_write_of_ne _ hne, Ram.read_write_self, Word.word_high_low]
  exact hs

theorem readFrame_writeFrame (ram : Ram) (addr : UInt16) {frame : Stereo Int} (h : frame.Small) :
    readFrame (writeFrame ram addr frame) addr = frame := by
  have hl : readSample (writeFrame ram addr frame) addr = frame.left := by
    refine (readSample_congr fun i hi ↦ ?_).trans (readSample_writeSample ram addr h.1)
    refine read_writeSample _ _ ?_
    have ha := addr.toNat_lt
    rw [UInt16.toNat_sub, UInt16.toNat_add, UInt16.toNat_add, UInt16.toNat_ofNat']
    change 2 ≤ (65536 - (addr.toNat + 2) % 65536 + (addr.toNat + i % 65536) % 65536) % 65536
    omega
  unfold readFrame
  rw [hl]
  exact congrArg (Stereo.mk frame.left) (readSample_writeSample _ _ h.2)

theorem read_writeSample_zero (h : ram.read a = 0) (addr : UInt16) : (writeSample ram addr 0).read a = 0 := by
  change ((ram.write addr 0).write (addr + 1) 0).read a = 0
  simp only [Ram.read_write, h, ite_self]

theorem read_writeFrame_zero (h : ram.read a = 0) (addr : UInt16) : (writeFrame ram addr ⟨0, 0⟩).read a = 0 :=
  read_writeSample_zero (read_writeSample_zero h addr) (addr + 2)

end Echo

end SoundUnit
