import SoundUnit.Proofs.Bus.Passage
import SoundUnit.Proofs.Dsp.DelayLine
import SoundUnit.Proofs.Dsp.Reachable

namespace SoundUnit

namespace Echo

/-- The bytes from the start of the line that can be written, on this round and on the next ones. -/
def window (e : Echo) : Nat := max 4 (max e.length.toNat (2048 * (e.delay.toNat % 16)))

/-- The line is at its start or at a frame inside of the length of this round. -/
def Inside (e : Echo) : Prop := e.offset = 0 ∨ e.offset.toNat % 4 = 0 ∧ e.offset < e.length

theorem Inside.advance {e : Echo} (h : e.Valid) : e.advance.Inside := by
  have ho := (valid_iff.1 h).1
  have ha := toNat_offset_add h
  change (if e.advance.length ≤ e.offset + frameBytes then 0 else e.offset + frameBytes) = 0 ∨
    (if e.advance.length ≤ e.offset + frameBytes then 0 else e.offset + frameBytes).toNat % 4 = 0 ∧
      (if e.advance.length ≤ e.offset + frameBytes then 0 else e.offset + frameBytes) < e.advance.length
  split
  next => exact .inl rfl
  next hlt =>
    rw [UInt16.not_le] at hlt
    exact .inr ⟨by omega, hlt⟩

theorem Inside.offset_le {e : Echo} (h : e.Inside) (hv : e.Valid) : e.offset.toNat + 4 ≤ max 4 e.length.toNat := by
  obtain ⟨ho, -, hl, -⟩ := valid_iff.1 hv
  rcases h with h | ⟨-, h⟩
  · rw [h, UInt16.toNat_zero]
    omega
  · rw [UInt16.lt_iff_toNat_lt] at h
    omega

theorem Inside.mem_window {e : Echo} (h : e.Inside) (hv : e.Valid) {a : UInt16} (ha : (a - e.address).toNat < 4) :
    (a - e.start).toNat < e.window := by
  have hi := h.offset_le hv
  have hlt := (valid_iff.1 hv).2.1
  have hs := e.start.toNat_lt
  have hn := a.toNat_lt
  rw [address, UInt16.toNat_sub, UInt16.toNat_add] at ha
  rw [window, UInt16.toNat_sub]
  omega

theorem window_advance (e : Echo) : e.advance.window ≤ e.window := by
  have hd := e.toNat_delayLength
  change max 4 (max (if e.offset = 0 then e.delayLength else e.length).toNat (2048 * (e.delay.toNat % 16))) ≤
    max 4 (max e.length.toNat (2048 * (e.delay.toNat % 16)))
  split <;> omega

end Echo

namespace Dsp

variable {d e : Dsp} {ram : Ram} {a : UInt16}

theorem tick_echo (d : Dsp) (ram : Ram) :
    (d.tick ram).1.echo = (d.echo.receive ram).advance ∧
      ∃ frame, (d.tick ram).2 = if d.echoWrites then Echo.writeFrame ram d.echo.address frame else ram := by
  have hg := Echo.generate_echo d ram
  obtain ⟨counter, noise, voices, ended, hp⟩ := d.prepare_frame ram
  rw [tick_eq]
  generalize d.generate ram = g at hg ⊢
  rw [hp] at hg
  obtain ⟨he, hr⟩ := Prod.mk.inj hg
  exact ⟨he, _, hr⟩

theorem write_echo (d : Dsp) (addr data : UInt8) :
    (d.write addr data).echo.offset = d.echo.offset ∧ (d.write addr data).echo.length = d.echo.length := by
  unfold write
  split
  · cases DspRegister.ofAddress addr with
    | voice v r => exact ⟨rfl, rfl⟩
    | tap i => exact ⟨rfl, rfl⟩
    | global r => cases r <;> exact ⟨rfl, rfl⟩
  · exact ⟨rfl, rfl⟩

theorem inside_ticks (h : d.Valid) (hi : d.echo.Inside) (n : Nat) (ram : Ram) : (ticks n d ram).1.echo.Inside := by
  induction n generalizing d ram with
  | zero => exact hi
  | succ n ih =>
    refine ih (h.tick ram) ?_ _
    rw [(d.tick_echo ram).1]
    exact .advance (h.2.2.1.receive ram)

theorem Reachable.inside (h : d.Reachable) : d.echo.Inside := by
  induction h with
  | initial => exact .inl rfl
  | @write d h addr data ih =>
    obtain ⟨ho, hl⟩ := d.write_echo addr data
    rw [Echo.Inside, ho, hl]
    exact ih
  | @clock d h clocks ram ih =>
    rw [clock_eq]
    exact inside_ticks h.valid ih _ ram
  | take _ n ih => exact ih
  | mute _ mask ih => exact ih
  | clearEcho _ ram ih => exact .inl rfl

theorem Reachable.tick (h : d.Reachable) (ram : Ram) : (d.tick ram).1.Reachable := by
  have he : d.elapsed < sampleClocks := h.valid.1
  have ht := d.elapsed_tick ram
  have hc : d.clock sampleClocks ram = d.tick ram := by
    have hone : ticks (0 + 1) d ram = d.tick ram := rfl
    rw [clock_eq, Nat.add_div_right _ (by decide), Nat.div_eq_of_lt he, Nat.add_mod_right, Nat.mod_eq_of_lt he, hone]
    generalize d.tick ram = t at ht ⊢
    rw [← ht]
    rfl
  rw [← hc]
  exact h.clock sampleClocks ram

/-- The registers that place the echo in memory and switch its writes. -/
def placement (d : Dsp) : UInt8 × UInt8 × UInt8 := (d.flags, d.echo.startPage, d.echo.delay)

/-- What the generator comes to while the registers of its placement hold the same. The memory can be another one in
every tick, since the program writes it too. -/
inductive Stretch (d : Dsp) : Dsp → Prop
  | refl : Stretch d d
  | write {e : Dsp} (h : Stretch d e) (addr data : UInt8) (hp : (e.write addr data).placement = e.placement) :
    Stretch d (e.write addr data)
  | tick {e : Dsp} (h : Stretch d e) (ram : Ram) : Stretch d (e.tick ram).1
  | take {e : Dsp} (h : Stretch d e) (n : Nat) : Stretch d (e.take n).2
  | mute {e : Dsp} (h : Stretch d e) (mask : UInt8) : Stretch d (e.mute mask)
  | clearEcho {e : Dsp} (h : Stretch d e) (ram : Ram) : Stretch d (e.clearEcho ram).1

namespace Stretch

theorem placement (h : d.Stretch e) : e.placement = d.placement := by
  induction h with
  | refl => rfl
  | write _ addr data hp ih => exact hp.trans ih
  | @tick e _ ram ih =>
    rw [← ih, Dsp.placement, flags_tick, (e.tick_echo ram).1]
    rfl
  | take _ n ih => exact ih
  | mute _ mask ih => exact ih
  | clearEcho _ ram ih => exact ih

theorem echoWrites (h : d.Stretch e) : e.echoWrites = !Bit.test d.flags 5 := by
  have hf : e.flags = d.flags := congrArg Prod.fst h.placement
  rw [Dsp.echoWrites, hf]

theorem start (h : d.Stretch e) : e.echo.start = d.echo.start := by
  have hp : e.echo.startPage = d.echo.startPage := congrArg (·.2.1) h.placement
  rw [Echo.start, hp, Echo.start]

theorem window_le (h : d.Stretch e) : e.echo.window ≤ d.echo.window := by
  induction h with
  | refl => exact Nat.le_refl _
  | @write e _ addr data hp ih =>
    have hd : (e.write addr data).echo.delay = e.echo.delay := congrArg (·.2.2) hp
    rw [Echo.window, (e.write_echo addr data).2, hd]
    exact ih
  | @tick e _ ram ih =>
    rw [(e.tick_echo ram).1]
    exact (Echo.window_advance _).trans ih
  | take _ n ih => exact ih
  | mute _ mask ih => exact ih
  | clearEcho _ ram ih => exact ih

theorem reachable (h : d.Stretch e) (hd : d.Reachable) : e.Reachable := by
  induction h with
  | refl => exact hd
  | write _ addr data _ ih => exact ih.write addr data
  | tick _ ram ih => exact ih.tick ram
  | take _ n ih => exact ih.take n
  | mute _ mask ih => exact ih.mute mask
  | clearEcho _ ram ih => exact ih.clearEcho ram

theorem changed (h : d.Stretch e) (hd : d.Reachable) (ha : (e.tick ram).2.read a ≠ ram.read a) :
    Bit.test d.flags 5 = false ∧ (a - e.echo.address).toNat < 4 ∧ (a - d.echo.start).toNat < d.echo.window := by
  have hr := h.reachable hd
  obtain ⟨frame, hw⟩ := (e.tick_echo ram).2
  rw [hw, h.echoWrites] at ha
  split at ha
  next hb =>
    have hn : (a - e.echo.address).toNat < 4 := by
      by_contra hfar
      exact ha (Echo.read_writeFrame ram frame (Nat.le_of_not_lt hfar))
    refine ⟨by simpa using hb, hn, ?_⟩
    rw [← h.start]
    exact (hr.inside.mem_window hr.valid.2.2.1 hn).trans_le h.window_le
  next => exact absurd rfl ha

theorem changed_ticks (h : d.Stretch e) (hd : d.Reachable) (n : Nat) (ha : (ticks n e ram).2.read a ≠ ram.read a) :
    (a - d.echo.start).toNat < d.echo.window := by
  induction n generalizing e ram with
  | zero => exact absurd rfl ha
  | succ n ih =>
    by_cases ht : (e.tick ram).2.read a = ram.read a
    · have hr : (ticks n (e.tick ram).1 (e.tick ram).2).2.read a ≠ (e.tick ram).2.read a := by
        rw [ht]
        exact ha
      exact ih (h.tick ram) hr
    · exact (h.changed hd ht).2.2

theorem ram_ticks (h : d.Stretch e) (hb : Bit.test d.flags 5) (n : Nat) (ram : Ram) : (ticks n e ram).2 = ram := by
  induction n generalizing e ram with
  | zero => rfl
  | succ n ih =>
    obtain ⟨frame, hw⟩ := (e.tick_echo ram).2
    rw [h.echoWrites, hb] at hw
    exact (ih (h.tick ram) _).trans hw

end Stretch

/-- The generator writes memory only for its echo. While the registers of the placement hold, whatever else the program
and the host do, the bytes that change are in the window that there was at first, and in a tick they are in the frame to
which the line has come. Nothing changes while the writes are switched off. -/
theorem Reachable.echo_window (hd : d.Reachable) (h : d.Stretch e) :
    (e.echo.offset = 0 ∨ e.echo.offset.toNat % 4 = 0 ∧ e.echo.offset < e.echo.length) ∧
      (Bit.test d.flags 5 → ∀ n ram, (ticks n e ram).2 = ram) ∧
      (∀ n ram a, (ticks n e ram).2.read a ≠ ram.read a →
        (a - d.echo.start).toNat < max 4 (max d.echo.length.toNat (2048 * (d.echo.delay.toNat % 16)))) ∧
      ∀ ram a, (e.tick ram).2.read a ≠ ram.read a → (a - (d.echo.start + e.echo.offset)).toNat < 4 := by
  refine ⟨(h.reachable hd).inside, fun hb ↦ h.ram_ticks hb, fun n ram a ↦ h.changed_ticks hd n, ?_⟩
  intro ram a ha
  rw [← h.start]
  exact (h.changed hd ha).2.1

def lowLine : Dsp := ((({} : Dsp).write 0x6C 0).write 0x6D 0x02).write 0x7D 1

theorem echo_window_lowLine :
    let later := (lowLine.tick .zero).1.write 0x0C 0x7F
    lowLine.Reachable ∧ lowLine.Stretch later ∧ Bit.test lowLine.flags 5 = false ∧
      (later.tick (Ram.zero.write 0x204 0xAA)).2.read 0x204 = 0 ∧
      (∀ ram, (later.tick ram).2.read 0x208 = ram.read 0x208) ∧
      (∀ n ram, (ticks n later ram).2.read 0x1FF = ram.read 0x1FF) ∧
      ∀ n ram, (ticks n later ram).2.read 0xA00 = ram.read 0xA00 := by
  intro later
  have hr : lowLine.Reachable := ((Reachable.initial.write 0x6C 0).write 0x6D 0x02).write 0x7D 1
  have hp : ∀ u : Dsp, (u.write 0x0C 0x7F).placement = u.placement := fun _ ↦ rfl
  have hs : lowLine.Stretch later := (Stretch.refl.tick .zero).write 0x0C 0x7F (hp _)
  have ho : lowLine.echo.start + later.echo.offset = 0x204 := by decide +kernel
  obtain ⟨-, -, hw, ht⟩ := hr.echo_window hs
  rw [ho] at ht
  refine ⟨hr, hs, rfl, by decide +kernel, fun ram ↦ ?_, fun n ram ↦ ?_, fun n ram ↦ ?_⟩
  · by_contra ha
    exact absurd (ht ram 0x208 ha) (by decide)
  · by_contra ha
    exact absurd (hw n ram 0x1FF ha) (by decide)
  · by_contra ha
    exact absurd (hw n ram 0xA00 ha) (by decide)

end Dsp

end SoundUnit
