import Mathlib
import SoundUnit.Proofs.Dsp.EchoMemory
import SoundUnit.Proofs.Validity.Dsp

namespace SoundUnit

namespace Echo

def tick (e : Echo) (ram : Ram) (input : Stereo Int) (enabled : Bool) : Echo × Ram :=
  (e.receive ram).send ram input (e.receive ram).filter enabled

theorem generate_echo (d : Dsp) (ram : Ram) :
    ((d.generate ram).2.1.echo, (d.generate ram).2.2) =
      (d.prepare ram).echo.tick ram (d.prepare ram).echoMix (d.prepare ram).echoWrites := by
  rw [Dsp.generate_eq_finish, Dsp.finish_eq]
  generalize d.prepare ram = p
  rfl

/-- A sample with what the program does before it: it may write memory, and the registers of the echo that do not place
the line. -/
structure Moment where
  volume : Stereo Int8
  feedback : Int8
  enable : UInt8
  taps : Vector Int8 8
  writes : List (UInt16 × UInt8) := []
  input : Stereo Int

def adjust (e : Echo) (m : Moment) : Echo :=
  { e with volume := m.volume, feedback := m.feedback, enable := m.enable, taps := m.taps }

def Moment.store (m : Moment) (ram : Ram) : Ram := m.writes.foldl (fun ram w ↦ ram.write w.1 w.2) ram

def run (e : Echo) (ram : Ram) (moments : Nat → Moment) : Nat → Echo × Ram
  | 0 => (e, ram)
  | n + 1 =>
    ((run e ram moments n).1.adjust (moments n)).tick ((moments n).store (run e ram moments n).2) (moments n).input true

/-- The echo in sample `n`, when the frame from the line has come in. -/
def heard (e : Echo) (ram : Ram) (moments : Nat → Moment) (n : Nat) : Echo :=
  ((e.run ram moments n).1.adjust (moments n)).receive ((moments n).store (e.run ram moments n).2)

/-- The frame that goes into the line in sample `n`. -/
def stored (e : Echo) (ram : Ram) (moments : Nat → Moment) (n : Nat) : Stereo Int :=
  (e.heard ram moments n).feed (moments n).input (e.heard ram moments n).filter

/-- The number of frames in the line. -/
def period (e : Echo) : Nat := max 1 (512 * (e.delay.toNat % 16))

/-- The address belongs to the line. -/
def Covers (e : Echo) (addr : UInt16) : Prop := (addr - e.start).toNat < 4 * e.period

instance (e : Echo) (addr : UInt16) : Decidable (e.Covers addr) := inferInstanceAs (Decidable (_ < _))

/-- The weighted sum of eight samples, oldest first. The first seven terms are summed in 16 bits, so that sum can
wrap; adding the last one saturates. -/
def weigh (taps : Vector Int8 8) (x : Fin 8 → Int) : Int :=
  Sample.even (Sample.clamp (Sample.wrap (∑ i : Fin 7, x i.castSucc * (taps.get i.castSucc).toInt / 64) +
    Sample.wrap (x (Fin.last 7) * (taps.get (Fin.last 7)).toInt / 64)))

/-- What goes into the line on one side: the input and the scaled output of the filter, clamped to 16 bits, with the low
bit clear. -/
def blend (feedback : Int8) (input filtered : Int) : Int :=
  2 * (min 32767 (max (-32768) (input + (filtered * feedback.toInt / 128).bmod 65536)) / 2)

theorem feed_eq (e : Echo) (input filtered : Stereo Int) :
    e.feed input filtered =
      ⟨blend e.feedback input.left filtered.left, blend e.feedback input.right filtered.right⟩ := rfl

theorem filterSide_eq (e : Echo) (side : Frame → Int16) :
    e.filterSide side = weigh e.taps fun i ↦ (side (e.tapFrame i)).toInt := by
  unfold weigh
  rw [Fin.sum_univ_seven]
  rfl

theorem filter_eq (e : Echo) {x : Fin 8 → Stereo Int} (h : ∀ i, (e.tapFrame i).map Int16.toInt = x i) :
    e.filter = ⟨weigh e.taps fun i ↦ (x i).left, weigh e.taps fun i ↦ (x i).right⟩ := by
  have hl (i : Fin 8) : (e.tapFrame i).left.toInt = (x i).left := congrArg Stereo.left (h i)
  have hr (i : Fin 8) : (e.tapFrame i).right.toInt = (x i).right := congrArg Stereo.right (h i)
  unfold filter
  simp only [filterSide_eq, hl, hr]

section History

variable (e : Echo) (ram : Ram)

theorem tapFrame_receive_last :
    (e.receive ram).tapFrame (Fin.last 7) = (readFrame ram e.address).map fun x ↦ Int16.ofInt (x / 2) := by
  have h : ((e.newest + 1) % 8 + 1 + 7) % 8 = (e.newest + 1) % 8 := by omega
  simp only [tapFrame, receive, Vector.get_eq_getElem, Fin.ofNat, Fin.val_last, Vector.getElem_setIfInBounds, h, if_true]

theorem tapFrame_receive (i : Fin 7) : (e.receive ram).tapFrame i.castSucc = e.tapFrame i.succ := by
  have hi := i.isLt
  have hne : (e.newest + 1) % 8 ≠ ((e.newest + 1) % 8 + 1 + i.val) % 8 := by omega
  have he : ((e.newest + 1) % 8 + 1 + i.val) % 8 = (e.newest + 1 + (i.val + 1)) % 8 := by omega
  simp only [tapFrame, receive, Vector.get_eq_getElem, Fin.ofNat, Fin.val_castSucc, Fin.val_succ,
    Vector.getElem_setIfInBounds, if_neg hne]
  simp only [he]

end History

section Line

variable {e u : Echo} {n : Nat}

def slot (e : Echo) (n : Nat) : UInt16 := e.start + UInt16.ofNat (4 * (n % e.period))

theorem period_pos (e : Echo) : 0 < e.period := by
  unfold period
  omega

theorem period_le (e : Echo) : e.period ≤ 7680 := by
  unfold period
  omega

/-- After `n` samples the echo has come to the place of frame `n`. Inside of a round it knows the length of the line. -/
structure Turning (e : Echo) (n : Nat) (u : Echo) : Prop where
  startPage : u.startPage = e.startPage
  delay : u.delay = e.delay
  offset : u.offset.toNat = 4 * (n % e.period)
  length : n % e.period ≠ 0 → u.length = e.delayLength

namespace Turning

theorem initial (hp : u.startPage = e.startPage) (hd : u.delay = e.delay) (ho : u.offset = 0) : e.Turning 0 u := by
  have hz : 0 % e.period = 0 := Nat.zero_mod _
  refine ⟨hp, hd, ?_, fun hne ↦ absurd hz hne⟩
  rw [hz, ho]
  rfl

theorem adjust (h : e.Turning n u) (m : Moment) : e.Turning n (u.adjust m) := ⟨h.1, h.2, h.3, h.4⟩

theorem receive (h : e.Turning n u) (ram : Ram) : e.Turning n (u.receive ram) := ⟨h.1, h.2, h.3, h.4⟩

theorem address (h : e.Turning n u) : u.address = e.slot n := by
  have ho : u.offset = UInt16.ofNat (4 * (n % e.period)) := by rw [← h.offset, UInt16.ofNat_toNat]
  unfold Echo.address slot start
  rw [h.startPage, ho]

theorem length_advance (h : e.Turning n u) : u.advance.length = e.delayLength := by
  change (if u.offset = 0 then u.delayLength else u.length) = e.delayLength
  split
  next =>
    unfold delayLength
    rw [h.delay]
  next hne =>
    refine h.length fun hr ↦ hne ?_
    rw [← UInt16.toNat_inj, h.offset, hr]
    rfl

theorem advance (h : e.Turning n u) : e.Turning (n + 1) u.advance := by
  have hlen := h.length_advance
  refine ⟨h.startPage, h.delay, ?_, fun _ ↦ hlen⟩
  have hd := e.toNat_delayLength
  have hle := e.period_le
  have hr : n % e.period < e.period := Nat.mod_lt _ e.period_pos
  have hp : e.period = max 1 (512 * (e.delay.toNat % 16)) := rfl
  have ho : (u.offset + frameBytes).toNat = 4 * (n % e.period) + 4 := by
    have hoff := h.offset
    rw [UInt16.toNat_add, hoff]
    change (4 * (n % e.period) + 4) % 65536 = _
    omega
  have hn : (n + 1) % e.period = (n % e.period + 1) % e.period := (Nat.mod_add_mod n e.period 1).symm
  change (if u.advance.length ≤ u.offset + frameBytes then 0 else u.offset + frameBytes).toNat =
    4 * ((n + 1) % e.period)
  rw [hlen, hn]
  split
  next hend =>
    rw [UInt16.le_iff_toNat_le, hd, ho] at hend
    have he : n % e.period + 1 = e.period := by omega
    rw [he, Nat.mod_self]
    rfl
  next hnot =>
    rw [UInt16.le_iff_toNat_le, hd, ho] at hnot
    have hlt : n % e.period + 1 < e.period := by omega
    rw [ho, Nat.mod_eq_of_lt hlt]
    omega

end Turning

theorem covers_slot (e : Echo) (n : Nat) {i : Nat} (hi : i < 4) : e.Covers (e.slot n + UInt16.ofNat i) := by
  have hle := e.period_le
  have hr : n % e.period < e.period := Nat.mod_lt _ e.period_pos
  have he : e.slot n + UInt16.ofNat i = e.start + UInt16.ofNat (4 * (n % e.period) + i) := by
    unfold slot
    rw [UInt16.add_assoc, ← UInt16.ofNat_add]
  unfold Covers
  rw [he, toNat_add_sub _ (by omega)]
  omega

theorem read_store {m : Moment} (hw : ∀ w ∈ m.writes, ¬ e.Covers w.1) (ram : Ram) {a : UInt16} (ha : e.Covers a) :
    (m.store ram).read a = ram.read a := by
  unfold Moment.store
  generalize m.writes = writes at hw
  induction writes generalizing ram with
  | nil => rfl
  | cons w writes ih =>
    have hne : a ≠ w.1 := fun he ↦ hw w List.mem_cons_self (he ▸ ha)
    rw [List.foldl_cons, ih _ (fun w hm ↦ hw w (List.mem_cons_of_mem _ hm)), Ram.read_write_of_ne _ hne]

theorem readFrame_store {m : Moment} (hw : ∀ w ∈ m.writes, ¬ e.Covers w.1) (ram : Ram) (n : Nat) :
    readFrame (m.store ram) (e.slot n) = readFrame ram (e.slot n) :=
  readFrame_congr fun _ hi ↦ read_store hw ram (e.covers_slot n hi)

theorem mod_period_ne {j n p : Nat} (h : j < n) (h' : n < j + p) : n % p ≠ j % p := by
  intro he
  have hz : (n - j) % p = 0 := Nat.sub_mod_eq_zero_of_mod_eq he
  rw [Nat.mod_eq_of_lt (by omega)] at hz
  omega

theorem readFrame_writeFrame_slot {j : Nat} (h : j < n) (h' : n < j + e.period) (ram : Ram) (frame : Stereo Int) :
    readFrame (writeFrame ram (e.slot n) frame) (e.slot j) = readFrame ram (e.slot j) := by
  have hle := e.period_le
  have hn : n % e.period < e.period := Nat.mod_lt _ e.period_pos
  have hj : j % e.period < e.period := Nat.mod_lt _ e.period_pos
  have hne := mod_period_ne h h'
  refine readFrame_congr fun i hi ↦ read_writeFrame _ _ ?_
  have hs := e.start.toNat_lt
  unfold slot
  rw [UInt16.toNat_sub, UInt16.toNat_add, UInt16.toNat_add, UInt16.toNat_add, UInt16.toNat_ofNat', UInt16.toNat_ofNat',
    UInt16.toNat_ofNat']
  omega

end Line

section Run

variable {e : Echo} (ram : Ram) (moments : Nat → Moment)

theorem run_succ (e : Echo) (n : Nat) :
    e.run ram moments (n + 1) =
      ((e.heard ram moments n).advance,
        writeFrame ((moments n).store (e.run ram moments n).2) (e.heard ram moments n).address
          (e.stored ram moments n)) := rfl

theorem turning_run (h : e.offset = 0) (n : Nat) : e.Turning n (e.run ram moments n).1 := by
  induction n with
  | zero => exact .initial rfl rfl h
  | succ n ih => exact ((ih.adjust _).receive _).advance

theorem turning_heard (h : e.offset = 0) (n : Nat) : e.Turning n (e.heard ram moments n) :=
  ((turning_run ram moments h n).adjust _).receive _

theorem stored_small (e : Echo) (n : Nat) : (e.stored ram moments n).Small :=
  ⟨Sample.even_clamp_bounds _, Sample.even_clamp_bounds _⟩

variable {moments}

/-- A frame stays in its slot until a round later. -/
theorem readFrame_run (h : e.offset = 0) (hw : ∀ n, ∀ w ∈ (moments n).writes, ¬ e.Covers w.1) {j n : Nat} (hj : j < n)
    (hn : n ≤ j + e.period) : readFrame (e.run ram moments n).2 (e.slot j) = e.stored ram moments j := by
  induction n with
  | zero => exact absurd hj (Nat.not_lt_zero j)
  | succ n ih =>
    rw [run_succ, (turning_heard ram moments h n).address]
    rcases Nat.lt_or_eq_of_le (Nat.le_of_lt_succ hj) with hlt | rfl
    · rw [readFrame_writeFrame_slot hlt hn, readFrame_store (hw n), ih hlt (Nat.le_of_succ_le hn)]
    · exact readFrame_writeFrame _ _ (e.stored_small ram moments j)

theorem slot_add_period (e : Echo) (n : Nat) : e.slot (n + e.period) = e.slot n := by
  unfold slot
  rw [Nat.add_mod_right]

theorem tapFrame_heard_last (h : e.offset = 0) (hw : ∀ n, ∀ w ∈ (moments n).writes, ¬ e.Covers w.1) (n : Nat) :
    (e.heard ram moments (n + e.period)).tapFrame (Fin.last 7) =
      (e.stored ram moments n).map fun x ↦ Int16.ofInt (x / 2) := by
  have hp := e.period_pos
  have ha : ((e.run ram moments (n + e.period)).1.adjust (moments (n + e.period))).address = e.slot n := by
    rw [((turning_run ram moments h _).adjust _).address, slot_add_period]
  have hr := readFrame_run ram h hw (j := n) (n := n + e.period) (by omega) (Nat.le_refl _)
  unfold heard
  rw [tapFrame_receive_last, ha, readFrame_store (hw _), hr]

theorem tapFrame_heard_succ (e : Echo) (n : Nat) (i : Fin 7) :
    (e.heard ram moments (n + 1)).tapFrame i.castSucc = (e.heard ram moments n).tapFrame i.succ :=
  tapFrame_receive ..

theorem tapFrame_heard (e : Echo) (n : Nat) {k : Nat} {i : Fin 8} (hi : i.val + k = 7) :
    (e.heard ram moments (n + k)).tapFrame i = (e.heard ram moments n).tapFrame (Fin.last 7) := by
  induction k generalizing i with
  | zero =>
    obtain rfl : i = Fin.last 7 := Fin.ext hi
    rfl
  | succ k ih =>
    obtain ⟨j, rfl⟩ : ∃ j : Fin 7, i = j.castSucc := ⟨⟨i.val, by omega⟩, rfl⟩
    rw [← Nat.add_assoc, tapFrame_heard_succ]
    refine ih ?_
    rw [Fin.val_castSucc] at hi
    rw [Fin.val_succ]
    omega

theorem toInt_half {x : Int} (h : -32768 ≤ x ∧ x ≤ 32767) : (Int16.ofInt (x / 2)).toInt = x / 2 :=
  Int16.toInt_ofInt_of_le (by omega) (by omega)

theorem toInt_tapFrame_heard_last (h : e.offset = 0) (hw : ∀ n, ∀ w ∈ (moments n).writes, ¬ e.Covers w.1) (n : Nat) :
    ((e.heard ram moments (n + e.period)).tapFrame (Fin.last 7)).map Int16.toInt =
      (e.stored ram moments n).map (· / 2) := by
  obtain ⟨hl, hr⟩ := e.stored_small ram moments n
  rw [tapFrame_heard_last ram h hw]
  unfold Stereo.map
  rw [toInt_half hl, toInt_half hr]

theorem toInt_tapFrame_heard (h : e.offset = 0) (hw : ∀ n, ∀ w ∈ (moments n).writes, ¬ e.Covers w.1) (n : Nat)
    (i : Fin 8) :
    ((e.heard ram moments (n + e.period + 7)).tapFrame i).map Int16.toInt =
      (e.stored ram moments (n + i)).map (· / 2) := by
  have hk : n + e.period + 7 = n + i.val + e.period + (7 - i.val) := by omega
  rw [hk, e.tapFrame_heard ram _ (by omega)]
  exact toInt_tapFrame_heard_last ram h hw (n + i)

theorem readFrame_run_succ (h : e.offset = 0) (hw : ∀ n, ∀ w ∈ (moments n).writes, ¬ e.Covers w.1) (n : Nat) :
    readFrame (e.run ram moments (n + 1)).2 (e.heard ram moments n).address = e.stored ram moments n := by
  rw [(turning_heard ram moments h n).address]
  exact readFrame_run ram h hw (Nat.lt_succ_self n) (Nat.add_le_add_left e.period_pos n)

theorem taps_heard (e : Echo) (n : Nat) : (e.heard ram moments n).taps = (moments n).taps := rfl

theorem stored_eq (e : Echo) (n : Nat) :
    e.stored ram moments n =
      ⟨blend (moments n).feedback (moments n).input.left
          (weigh (moments n).taps fun i ↦ ((e.heard ram moments n).tapFrame i).left.toInt),
        blend (moments n).feedback (moments n).input.right
          (weigh (moments n).taps fun i ↦ ((e.heard ram moments n).tapFrame i).right.toInt)⟩ := by
  unfold stored
  rw [feed_eq, filter_eq _ fun i ↦ rfl]
  rfl

/-- The echo delays by a fixed number of frames, whatever the state of its filter, its memory and its other registers.
The frame that is stored in sample `n` is made of the input and of the weighted sum of the last eight frames that came
out of the line. It is what comes out of the line a period later, halved; and then the output of the filter is the
weighted sum of the frames that were stored. -/
theorem delayed (h : e.offset = 0) (hw : ∀ n, ∀ w ∈ (moments n).writes, ¬ e.Covers w.1) (n : Nat) :
    e.stored ram moments n =
        ⟨blend (moments n).feedback (moments n).input.left
            (weigh (moments n).taps fun i ↦ ((e.heard ram moments n).tapFrame i).left.toInt),
          blend (moments n).feedback (moments n).input.right
            (weigh (moments n).taps fun i ↦ ((e.heard ram moments n).tapFrame i).right.toInt)⟩ ∧
      readFrame (e.run ram moments (n + 1)).2 (e.heard ram moments n).address = e.stored ram moments n ∧
      ((e.heard ram moments (n + e.period)).tapFrame (Fin.last 7)).map Int16.toInt =
        (e.stored ram moments n).map (· / 2) ∧
      (e.heard ram moments (n + e.period + 7)).filter =
        ⟨weigh (moments (n + e.period + 7)).taps fun i ↦ (e.stored ram moments (n + i)).left / 2,
          weigh (moments (n + e.period + 7)).taps fun i ↦ (e.stored ram moments (n + i)).right / 2⟩ := by
  refine ⟨e.stored_eq ram n, readFrame_run_succ ram h hw n, toInt_tapFrame_heard_last ram h hw n, ?_⟩
  rw [filter_eq _ (toInt_tapFrame_heard ram h hw n), taps_heard]
  rfl

/-- A line that goes on past the end of the address space, with a filter that is not silent yet. -/
def wrappingLine : Echo where
  startPage := 0xFF
  delay := 1
  history := Vector.replicate 8 ⟨0x1000, -0x1000⟩

def steadyMoment : Moment where
  volume := ⟨0x20, 0x20⟩
  feedback := 0x40
  enable := 0xFF
  taps := #v[1, 2, 3, 4, 5, 6, 7, 8]
  writes := [(0x1000, 7)]
  input := ⟨0x101, -0x101⟩

theorem readFrame_wrappingLine :
    readFrame (steadyMoment.store .zero) (wrappingLine.adjust steadyMoment).address = ⟨0, 0⟩ := by
  have hr (a : UInt16) (ha : a ≠ 0x1000) : (steadyMoment.store .zero).read a = 0 := by
    rw [← Ram.read_zero a]
    exact Ram.read_write_of_ne _ ha _
  have ha : (wrappingLine.adjust steadyMoment).address = 0xFF00 := by decide
  unfold readFrame readSample
  rw [ha, hr _ (by decide), hr _ (by decide), hr _ (by decide), hr _ (by decide)]
  rfl

theorem tapFrame_wrappingLine (i : Fin 8) :
    (wrappingLine.heard .zero (fun _ ↦ steadyMoment) 0).tapFrame i =
      if i = Fin.last 7 then ⟨0, 0⟩ else ⟨0x1000, -0x1000⟩ := by
  cases i using Fin.lastCases with
  | last =>
    change ((wrappingLine.adjust steadyMoment).receive (steadyMoment.store .zero)).tapFrame _ = _
    rw [tapFrame_receive_last, readFrame_wrappingLine]
    rfl
  | cast i =>
    change ((wrappingLine.adjust steadyMoment).receive (steadyMoment.store .zero)).tapFrame _ = _
    rw [tapFrame_receive]
    revert i
    decide

theorem delayed_wrappingLine :
    wrappingLine.offset = 0 ∧ (∀ w ∈ steadyMoment.writes, ¬ wrappingLine.Covers w.1) ∧
      wrappingLine.slot 88 = 0x60 ∧
      wrappingLine.stored .zero (fun _ ↦ steadyMoment) 0 = ⟨1152, -1154⟩ ∧
      ((wrappingLine.heard .zero (fun _ ↦ steadyMoment) 512).tapFrame (Fin.last 7)).map Int16.toInt = ⟨576, -577⟩ := by
  have h : wrappingLine.offset = 0 := rfl
  have hw : ∀ w ∈ steadyMoment.writes, ¬ wrappingLine.Covers w.1 := by
    intro w hm
    obtain rfl := List.mem_singleton.1 hm
    decide +kernel
  have hp : 0 + wrappingLine.period = 512 := by decide
  obtain ⟨hs, -, hd, -⟩ := delayed .zero h (fun _ ↦ hw) 0
  have hv : wrappingLine.stored .zero (fun _ ↦ steadyMoment) 0 = ⟨1152, -1154⟩ := by
    rw [hs]
    simp only [tapFrame_wrappingLine]
    decide +kernel
  rw [hp, hv] at hd
  exact ⟨h, hw, by decide +kernel, hv, hd⟩

end Run

end Echo

end SoundUnit
