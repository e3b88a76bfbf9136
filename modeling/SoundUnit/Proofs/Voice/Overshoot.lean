import Mathlib
import SoundUnit.Proofs.Dsp.Mixing
import SoundUnit.Voice.Interpolation

namespace SoundUnit

namespace Interpolation

def early (phase : Fin 256) (a b c : Int) : Int :=
  weigh (footWeights.get phase.rev) a + weigh (shoulderWeights.get phase.rev) b + weigh (shoulderWeights.get phase) c

def earlyWeight (phase : Fin 256) : Nat :=
  footWeights.get phase.rev + shoulderWeights.get phase.rev + shoulderWeights.get phase

/-- The sums of all four weights at the phases in a row. The weights of the older two samples are read backwards. -/
def totals : List Nat :=
  (footWeights.toList.reverse.zipWith (· + ·) shoulderWeights.toList.reverse).zipWith (· + ·)
    (shoulderWeights.toList.zipWith (· + ·) footWeights.toList)

theorem all_totals : totals.all fun w ↦ 2047 ≤ w && w ≤ 2049 := by decide +kernel

theorem length_totals : totals.length = 256 := by
  simp only [totals, List.length_zipWith, List.length_reverse, Vector.length_toList, Nat.min_self]

theorem getElem?_totals (phase : Fin 256) : totals[phase.val]? = some (earlyWeight phase + footWeights.get phase) := by
  obtain ⟨p, hp⟩ := phase
  have h : p < totals.length := by
    have hl := length_totals
    omega
  rw [List.getElem?_eq_getElem h]
  simp only [totals, earlyWeight, List.getElem_zipWith, List.getElem_reverse, Vector.getElem_toList,
    Vector.length_toList, Vector.get_eq_getElem, Fin.val_rev, Nat.add_assoc, Nat.reduceSub, Nat.reduceSubDiff]

theorem weight_near_one (phase : Fin 256) :
    2047 ≤ earlyWeight phase + footWeights.get phase ∧ earlyWeight phase + footWeights.get phase ≤ 2049 := by
  have h := List.all_eq_true.1 all_totals _ (List.mem_of_getElem? (getElem?_totals phase))
  simpa only [Bool.and_eq_true, decide_eq_true_eq] using h

variable {phase : Fin 256} {a b c d x lo hi : Int}

theorem weigh_bounds (weight : Nat) (h : lo ≤ x ∧ x ≤ hi) :
    weight * lo - 2047 ≤ 2048 * weigh weight x ∧ 2048 * weigh weight x ≤ weight * hi := by
  have hl : weight * lo ≤ weight * x := Int.mul_le_mul_of_nonneg_left h.1 (Int.natCast_nonneg weight)
  have hu : weight * x ≤ weight * hi := Int.mul_le_mul_of_nonneg_left h.2 (Int.natCast_nonneg weight)
  unfold weigh
  omega

theorem early_bounds (phase : Fin 256) (ha : lo ≤ a ∧ a ≤ hi) (hb : lo ≤ b ∧ b ≤ hi) (hc : lo ≤ c ∧ c ≤ hi) :
    earlyWeight phase * lo - 6141 ≤ 2048 * early phase a b c ∧ 2048 * early phase a b c ≤ earlyWeight phase * hi := by
  obtain ⟨hla, hua⟩ := weigh_bounds (footWeights.get phase.rev) ha
  obtain ⟨hlb, hub⟩ := weigh_bounds (shoulderWeights.get phase.rev) hb
  obtain ⟨hlc, huc⟩ := weigh_bounds (shoulderWeights.get phase) hc
  unfold early earlyWeight
  push_cast [Int.add_mul]
  omega

theorem early_fits (phase : Fin 256) (ha : -32700 ≤ a ∧ a ≤ 32700) (hb : -32700 ≤ b ∧ b ≤ 32700)
    (hc : -32700 ≤ c ∧ c ≤ 32700) : -32768 ≤ early phase a b c ∧ early phase a b c ≤ 32767 := by
  have hw := (weight_near_one phase).2
  obtain ⟨hl, hu⟩ := early_bounds phase ha hb hc
  omega

theorem mul_near_one {w : Nat} (hw : 2047 ≤ w ∧ w ≤ 2049) (hx : -32700 ≤ x ∧ x ≤ 32700) :
    2048 * x - 32700 ≤ w * x ∧ w * x ≤ 2048 * x + 32700 := by
  obtain rfl | rfl | rfl : w = 2047 ∨ w = 2048 ∨ w = 2049 := by omega
  all_goals omega

theorem sum_bounds (phase : Fin 256) (lo hi : Int) (hlo : -32700 ≤ lo) (hhi : hi ≤ 32700) (ha : lo ≤ a ∧ a ≤ hi)
    (hb : lo ≤ b ∧ b ≤ hi) (hc : lo ≤ c ∧ c ≤ hi) (hd : lo ≤ d ∧ d ≤ hi) :
    lo - 19 ≤ early phase a b c + weigh (footWeights.get phase) d ∧
      early phase a b c + weigh (footWeights.get phase) d ≤ hi + 15 := by
  obtain ⟨hle, hue⟩ := early_bounds phase ha hb hc
  obtain ⟨hld, hud⟩ := weigh_bounds (footWeights.get phase) hd
  have hw := weight_near_one phase
  have hl := (mul_near_one (x := lo) hw (by omega)).1
  have hu := (mul_near_one (x := hi) hw (by omega)).2
  rw [Int.natCast_add, Int.add_mul] at hl hu
  omega

theorem interpolate_eq (phase : Fin 256) (a b c d : Int) :
    interpolate phase a b c d =
      Sample.even (Sample.clamp (Sample.wrap (early phase a b c) + weigh (footWeights.get phase) d)) := by
  simp only [interpolate, early, Vector.get_eq_getElem, Fin.val_rev, Fin.getElem_fin, Nat.reduceSubDiff]

theorem interpolate_of_fits (h : -32768 ≤ early phase a b c ∧ early phase a b c ≤ 32767) (d : Int) :
    interpolate phase a b c d = Sample.even (Sample.clamp (early phase a b c + weigh (footWeights.get phase) d)) := by
  rw [interpolate_eq, Sample.wrap_of_bounds h]

/-- Below full scale the sum of the first three parts does not wrap. So an interpolated value is the sum of all four,
clamped and made even, and it lies near the range of the four samples. -/
theorem no_overshoot (phase : Fin 256) (ha : a.natAbs ≤ 32700) (hb : b.natAbs ≤ 32700) (hc : c.natAbs ≤ 32700)
    (hd : d.natAbs ≤ 32700) :
    (-32768 ≤ early phase a b c ∧ early phase a b c ≤ 32767) ∧
      interpolate phase a b c d = Sample.even (Sample.clamp (early phase a b c + weigh (footWeights.get phase) d)) ∧
      min (min a b) (min c d) - 40 ≤ interpolate phase a b c d ∧
      interpolate phase a b c d ≤ max (max a b) (max c d) + 40 := by
  have hf := early_fits phase (a := a) (b := b) (c := c) (by omega) (by omega) (by omega)
  have hi := interpolate_of_fits hf d
  obtain ⟨hl, hu⟩ := sum_bounds phase (min (min a b) (min c d)) (max (max a b) (max c d)) (a := a) (b := b)
    (c := c) (d := d) (by omega) (by omega) (by omega) (by omega) (by omega) (by omega)
  refine ⟨hf, hi, ?_⟩
  rw [hi]
  unfold Sample.even Sample.clamp
  omega

theorem no_overshoot_flat :
    early 76 (-32700) (-32700) (-32700) = -32463 ∧ interpolate 76 (-32700) (-32700) (-32700) (-32700) = -32720 ∧
      (-32740 : Int) ≤ interpolate 76 (-32700) (-32700) (-32700) (-32700) := by
  have h : (-32700 : Int).natAbs ≤ 32700 := by decide
  exact ⟨by decide +kernel, by decide +kernel, (no_overshoot 76 h h h h).2.2.1⟩

end Interpolation

end SoundUnit
