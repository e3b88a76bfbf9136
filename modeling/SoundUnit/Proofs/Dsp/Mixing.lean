import SoundUnit.Dsp.Generation

namespace SoundUnit

def Stereo.Small (s : Stereo Int) : Prop :=
  (-32768 ≤ s.left ∧ s.left ≤ 32767) ∧ -32768 ≤ s.right ∧ s.right ≤ 32767

theorem Stereo.small_zero : Stereo.Small ⟨0, 0⟩ := by
  unfold Small
  decide

namespace Sample

theorem clamp_bounds (x : Int) : -32768 ≤ clamp x ∧ clamp x ≤ 32767 := by
  unfold clamp
  omega

theorem clamp_of_bounds {x : Int} (h : -32768 ≤ x ∧ x ≤ 32767) : clamp x = x := by
  unfold clamp
  omega

theorem wrap_of_bounds {x : Int} (h : -32768 ≤ x ∧ x ≤ 32767) : wrap x = x := by
  unfold wrap
  apply Int.bmod_eq_of_le <;> omega

theorem even_clamp_bounds (x : Int) : -32768 ≤ even (clamp x) ∧ even (clamp x) ≤ 32767 := by
  have h := clamp_bounds x
  unfold even
  omega

end Sample

theorem Echo.filter_small (e : Echo) : e.filter.Small := ⟨Sample.even_clamp_bounds _, Sample.even_clamp_bounds _⟩

namespace Dsp

def accumulate (d : Dsp) (chosen : Fin 8 → Bool) (sum : Stereo Int) (v : Fin 8) : Stereo Int :=
  if chosen v then sum.zipWith (fun x y ↦ Sample.clamp (x + y)) (d.voices.get v).loudness else sum

theorem mix_eq (d : Dsp) (chosen : Fin 8 → Bool) :
    d.mix chosen = allVoices.foldl (d.accumulate chosen) ⟨0, 0⟩ := rfl

theorem small_accumulate (d : Dsp) (chosen : Fin 8 → Bool) {sum : Stereo Int} (h : sum.Small) (v : Fin 8) :
    (d.accumulate chosen sum v).Small := by
  unfold accumulate
  split
  · exact ⟨Sample.clamp_bounds _, Sample.clamp_bounds _⟩
  · exact h

theorem small_mix (d : Dsp) (chosen : Fin 8 → Bool) : (d.mix chosen).Small := by
  rw [mix_eq]
  exact List.foldlRecOn allVoices (d.accumulate chosen) Stereo.small_zero fun _ h v _ ↦ d.small_accumulate chosen h v

end Dsp

end SoundUnit
