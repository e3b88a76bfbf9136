import Mathlib
import SoundUnit.Output.Filter
import SoundUnit.Proofs.Checked.Arithmetic
import SoundUnit.Proofs.Dsp.Mixing

namespace SoundUnit

open Checked

namespace OutputFilter

inductive Operation where
  | setGain (gain : Int32)
  | setBass (bass : Nat)
  | clear
  | process (frame : Frame)

def operate (f : OutputFilter) : Operation → OutputFilter
  | .setGain gain => f.setGain gain
  | .setBass bass => f.setBass bass
  | .clear => f.clear
  | .process frame => (f.process frame).2

/-- A channel with an integrator of unbounded size. -/
structure Unbounded where
  previous : Int := 0
  lowPass : Int := 0
  integrator : Int := 0

def Unbounded.next (u : Unbounded) (gain : Int) (bass : Nat) (input : Int) : Unbounded :=
  let lowPass := input + u.previous
  { previous := 3 * input
    lowPass
    integrator := u.integrator + (lowPass - u.lowPass) * gain - u.integrator >>> bass }

structure Ideal where
  gain : Int
  bass : Nat
  left : Unbounded := {}
  right : Unbounded := {}

def Ideal.operate (u : Ideal) : Operation → Ideal
  | .setGain gain => { u with gain := gain.toInt }
  | .setBass bass => { u with bass := min bass maxBass }
  | .clear => { u with left := {}, right := {} }
  | .process frame =>
    { u with
      left := u.left.next u.gain u.bass frame.left.toInt
      right := u.right.next u.gain u.bass frame.right.toInt }

namespace Channel

def unbounded (c : Channel) : Unbounded := ⟨c.previous, c.lowPass, c.integrator.toInt⟩

def process? (c : Channel) (gain : Int32) (bass : Nat) (input : Int16) : Option (Int16 × Channel) := do
  let lowPass ← long (input.toInt + c.previous)
  let previous ← long (3 * input.toInt)
  let change ← long (lowPass - c.lowPass)
  let shift ← below 32 bass
  let charge ← long (change * gain.toInt)
  let charged ← long (c.integrator.toInt + charge)
  let integrator ← long (charged - c.integrator.toInt >>> shift)
  return (Int16.ofInt (Sample.clamp (c.integrator.toInt >>> (10 : Nat))),
    { previous, lowPass, integrator := Int32.ofInt integrator })

/-- Every sample moves the integrator by the gain times the change of the low pass, so a bound for one sample says
nothing about many of them. But the integrator less the gain times the low pass only ever leaks, and what leaks draws
it back into the range that the low pass has at this gain. -/
structure Contained (c : Channel) (gain : Int) : Prop where
  previous : -98304 ≤ c.previous ∧ c.previous ≤ 98304
  lowPass : -131072 ≤ c.lowPass ∧ c.lowPass ≤ 131072
  residue : (c.integrator.toInt - c.lowPass * gain).natAbs ≤ gain.natAbs * 131072

theorem contained_clear (gain : Int) : Contained {} gain where
  previous := by decide
  lowPass := by decide
  residue := by simp

end Channel

theorem amplified_lowPass (gain : Int) {x : Int} (h : -131072 ≤ x ∧ x ≤ 131072) :
    (x * gain).natAbs ≤ gain.natAbs * 131072 := by
  rw [Int.natAbs_mul, Nat.mul_comm]
  exact Nat.mul_le_mul_left _ (by omega)

def leaked (bass : Nat) (s : Int) : Int := s - s >>> bass

theorem leaked_of_nonneg {s : Int} (bass : Nat) (h : 0 ≤ s) : 0 ≤ leaked bass s ∧ leaked bass s ≤ s := by
  have hl := Int.le_shiftRight_of_nonneg (s := bass) h
  have hu := Int.shiftRight_le_of_nonneg (s := bass) h
  unfold leaked
  omega

theorem leaked_of_nonpos {s : Int} (bass : Nat) (h : s ≤ 0) : s ≤ leaked bass s ∧ leaked bass s ≤ 0 := by
  have hl := Int.le_shiftRight_of_nonpos (s := bass) h
  have hu := Int.shiftRight_le_of_nonpos (s := bass) h
  unfold leaked
  omega

theorem leak_bounds {d x m : Int} (bass : Nat) (hd : -m ≤ d ∧ d ≤ m) (hx : -m ≤ x ∧ x ≤ m) :
    -m ≤ d - (d + x) >>> bass ∧ d - (d + x) >>> bass ≤ m := by
  have hs : d - (d + x) >>> bass = leaked bass (d + x) - x := by
    unfold leaked
    omega
  rw [hs]
  rcases Int.le_total 0 (d + x) with h | h
  · have hb := leaked_of_nonneg bass h
    omega
  · have hb := leaked_of_nonpos bass h
    omega

theorem shiftRight_ten (x : Int) : x >>> (10 : Nat) = x / 1024 := Int.shiftRight_eq_div_pow x 10

namespace Channel

variable {c : Channel} {gain : Int32} {bass : Nat}

theorem Contained.integrator_le {g : Int} (h : c.Contained g) : c.integrator.toInt.natAbs ≤ g.natAbs * 2 ^ 18 := by
  have hl := amplified_lowPass g h.lowPass
  have hr := h.residue
  omega

theorem Contained.next_bounds {g : Int} (h : c.Contained g) (bass : Nat) (input : Int16) :
    let s := c.integrator.toInt
    let l := input.toInt + c.previous
    (-131072 ≤ l ∧ l ≤ 131072) ∧ ((l - c.lowPass) * g).natAbs ≤ g.natAbs * 262144 ∧
      (s + (l - c.lowPass) * g).natAbs ≤ g.natAbs * 262144 ∧
      (s + (l - c.lowPass) * g - s >>> bass - l * g).natAbs ≤ g.natAbs * 131072 := by
  intro s l
  have hi := int16_bounds input
  have hp := h.previous
  have hl : -131072 ≤ l ∧ l ≤ 131072 := by omega
  have ho := amplified_lowPass g h.lowPass
  have hn := amplified_lowPass g hl
  have hr : (s - c.lowPass * g).natAbs ≤ g.natAbs * 131072 := h.residue
  have hb := leak_bounds bass (d := s - c.lowPass * g) (x := c.lowPass * g) (m := g.natAbs * 131072)
    (by omega) (by omega)
  -- the new low pass takes the place of the old one in the residue, so only what leaks is left to bound
  rw [Int.sub_add_cancel] at hb
  rw [Int.sub_mul]
  refine ⟨hl, ?_, ?_, ?_⟩ <;> omega

theorem Contained.process (h : c.Contained gain.toInt) (hg : gain.toInt.natAbs ≤ 8191) (hb : bass ≤ maxBass)
    (input : Int16) :
    c.process? gain bass input = some (c.process gain bass input) ∧
      (c.process gain bass input).2.Contained gain.toInt ∧
      (c.process gain bass input).2.unbounded = c.unbounded.next gain.toInt bass input.toInt := by
  obtain ⟨hl, hc, hs, hr⟩ := h.next_bounds bass input
  have hi := int16_bounds input
  have ho := h.lowPass
  have hn := amplified_lowPass gain.toInt hl
  have hb' : bass < 32 := Nat.lt_succ_of_le hb
  have he : (Int32.ofInt (c.integrator.toInt + (input.toInt + c.previous - c.lowPass) * gain.toInt -
      c.integrator.toInt >>> bass)).toInt =
      c.integrator.toInt + (input.toInt + c.previous - c.lowPass) * gain.toInt - c.integrator.toInt >>> bass :=
    Int32.toInt_ofInt_of_le (by omega) (by omega)
  refine ⟨?_, ⟨?_, hl, ?_⟩, ?_⟩
  · unfold process? Channel.process
    simp (disch := omega) only [long_of, below_of, Option.bind_eq_bind, Option.bind_some, Option.pure_def,
      shiftRight_ten]
  · simp only [Channel.process]
    omega
  · simp only [Channel.process, he]
    exact hr
  · simp only [unbounded, Channel.process, he, Unbounded.next]

theorem toInt_output (c : Channel) (gain : Int32) (bass : Nat) (input : Int16) :
    (c.process gain bass input).1.toInt = Sample.clamp (c.integrator.toInt >>> (10 : Nat)) := by
  have hb := Sample.clamp_bounds (c.integrator.toInt / 1024)
  rw [shiftRight_ten]
  exact Int16.toInt_ofInt_of_le (by omega) (by omega)

end Channel

def process? (f : OutputFilter) (frame : Frame) : Option (Frame × OutputFilter) := do
  let (leftOut, left) ← f.left.process? f.gain f.bass frame.left
  let (rightOut, right) ← f.right.process? f.gain f.bass frame.right
  return (⟨leftOut, rightOut⟩, { f with left, right })

def ideal (f : OutputFilter) : Ideal := ⟨f.gain.toInt, f.bass, f.left.unbounded, f.right.unbounded⟩

structure Contained (f : OutputFilter) : Prop where
  gain : f.gain.toInt.natAbs ≤ 8191
  bass : f.bass ≤ maxBass
  left : f.left.Contained f.gain.toInt
  right : f.right.Contained f.gain.toInt

def Operation.KeepsGain : Operation → Prop
  | .setGain _ => False
  | _ => True

variable {f : OutputFilter} {gain : Int32} {o : Operation}

theorem bass_operate (h : f.bass ≤ maxBass) (o : Operation) : (f.operate o).bass ≤ maxBass := by
  cases o with
  | setBass bass => exact Nat.min_le_right bass maxBass
  | _ => exact h

theorem gain_operate (ho : o.KeepsGain) : (f.operate o).gain = f.gain := by
  cases o with
  | setGain gain => exact ho.elim
  | _ => rfl

theorem contained_setGain_clear (hg : gain.toInt.natAbs ≤ 8191) (hb : f.bass ≤ maxBass) :
    (f.clear.setGain gain).Contained := ⟨hg, hb, Channel.contained_clear _, Channel.contained_clear _⟩

theorem Contained.operate (h : f.Contained) (ho : o.KeepsGain) :
    (f.operate o).Contained ∧ (f.operate o).ideal = f.ideal.operate o := by
  cases o with
  | setGain gain => exact ho.elim
  | setBass bass => exact ⟨⟨h.gain, bass_operate h.bass (.setBass bass), h.left, h.right⟩, rfl⟩
  | clear => exact ⟨contained_setGain_clear h.gain h.bass, rfl⟩
  | process frame =>
    obtain ⟨-, hl, hul⟩ := h.left.process h.gain h.bass frame.left
    obtain ⟨-, hr, hur⟩ := h.right.process h.gain h.bass frame.right
    refine ⟨⟨h.gain, h.bass, hl, hr⟩, ?_⟩
    exact (congrArg (Ideal.mk _ _ · _) hul).trans (congrArg (Ideal.mk _ _ _) hur)

theorem Contained.process (h : f.Contained) (frame : Frame) : f.process? frame = some (f.process frame) := by
  obtain ⟨hl, -⟩ := h.left.process h.gain h.bass frame.left
  obtain ⟨hr, -⟩ := h.right.process h.gain h.bass frame.right
  unfold process?
  rw [hl, hr]
  rfl

theorem map_process (f : OutputFilter) (frame : Frame) :
    (f.process frame).1.map Int16.toInt =
      ⟨Sample.clamp (f.left.integrator.toInt >>> (10 : Nat)),
        Sample.clamp (f.right.integrator.toInt >>> (10 : Nat))⟩ := by
  rw [← f.left.toInt_output f.gain f.bass frame.left, ← f.right.toInt_output f.gain f.bass frame.right]
  rfl

theorem Contained.foldl (h : f.Contained) {later : List Operation} (hl : ∀ o ∈ later, o.KeepsGain) :
    (later.foldl OutputFilter.operate f).Contained ∧
      (later.foldl OutputFilter.operate f).ideal = later.foldl Ideal.operate f.ideal ∧
      (later.foldl OutputFilter.operate f).gain = f.gain := by
  induction later generalizing f with
  | nil => exact ⟨h, rfl, rfl⟩
  | cons o later ih =>
    obtain ⟨hfirst, hrest⟩ := List.forall_mem_cons.1 hl
    obtain ⟨hc, hi⟩ := h.operate hfirst
    obtain ⟨hc', hi', hg⟩ := ih hc hrest
    rw [hi] at hi'
    exact ⟨hc', hi', hg.trans (gain_operate hfirst)⟩

/-- Whatever has happened before, once the filter is clear and its gain is set below 32 times the unit, and as long as
it keeps that gain, it is the filter that never wraps: its integrators have a bound that does not grow with the number
of samples, no operation on a frame overflows, and the outputs come from the unbounded integrators. -/
theorem never_wraps (before later : List Operation) (hg : gain.toInt.natAbs ≤ 8191)
    (hl : ∀ o ∈ later, o.KeepsGain) :
    let start := (before.foldl operate {}).clear.setGain gain
    let f := later.foldl operate start
    let u := later.foldl Ideal.operate { gain := gain.toInt, bass := start.bass }
    f.ideal = u ∧ u.left.integrator.natAbs ≤ gain.toInt.natAbs * 2 ^ 18 ∧
      u.right.integrator.natAbs ≤ gain.toInt.natAbs * 2 ^ 18 ∧
      ∀ frame : Frame, f.process? frame = some (f.process frame) ∧
        (f.process frame).1.map Int16.toInt =
          ⟨Sample.clamp (u.left.integrator >>> (10 : Nat)), Sample.clamp (u.right.integrator >>> (10 : Nat))⟩ := by
  intro start f u
  have hb : (before.foldl operate {}).bass ≤ maxBass :=
    List.foldlRecOn before operate (motive := fun f ↦ f.bass ≤ maxBass) (by decide) fun _ h o _ ↦ bass_operate h o
  obtain ⟨hc, hi, hk⟩ := (contained_setGain_clear hg hb).foldl hl
  have hu : f.ideal = u := hi
  have hgain : f.gain = gain := hk
  rw [← hu, ← hgain]
  refine ⟨rfl, hc.left.integrator_le, hc.right.integrator_le, fun frame ↦ ⟨hc.process frame, ?_⟩⟩
  exact map_process f frame

/-- The low pass at its lowest drains the integrator, then it rises to its highest while nothing leaks. -/
def steepest : List Operation :=
  [.setBass 0, .process ⟨-32768, -1⟩, .process ⟨-32768, -1⟩, .process ⟨-32768, -1⟩, .setBass 31,
    .process ⟨32767, 0⟩, .process ⟨32767, 0⟩]

theorem never_wraps_steepest :
    let f := steepest.foldl operate ((({} : OutputFilter).setBass 40).clear.setGain 8191)
    (8191 : Int32).toInt.natAbs ≤ 8191 ∧ (∀ o ∈ steepest, o.KeepsGain) ∧ f.left.integrator.toInt = 2147188740 ∧
      f.left.integrator.toInt.natAbs ≤ 8191 * 2 ^ 18 ∧
      (f.process ⟨0, 0⟩).1.map Int16.toInt = ⟨32767, 31⟩ := by
  intro f
  have hg : (8191 : Int32).toInt.natAbs ≤ 8191 := by decide
  have hl : ∀ o ∈ steepest, o.KeepsGain := by simp [steepest, Operation.KeepsGain]
  obtain ⟨hi, hb, -, hf⟩ := never_wraps [.setBass 40] steepest hg hl
  refine ⟨hg, hl, by decide, ?_, ?_⟩
  · rw [← hi] at hb
    exact hb
  · exact (hf ⟨0, 0⟩).2.trans (by decide)

end OutputFilter

end SoundUnit
