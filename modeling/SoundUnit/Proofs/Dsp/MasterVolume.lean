import SoundUnit.Proofs.Checked.Arithmetic
import SoundUnit.Proofs.Dsp.Mixing
import SoundUnit.Proofs.Dsp.Voices

namespace SoundUnit

open Checked

namespace Sample

def Overdriven (x : Int) (volume : Int8) : Prop := x = -32768 ∧ volume = -128

instance (x : Int) (volume : Int8) : Decidable (Overdriven x volume) := inferInstanceAs (Decidable (_ ∧ _))

/-- A scaled sample in 16 bits, where one product wraps. -/
def scaled (x : Int) (volume : Int8) : Int := if Overdriven x volume then -32768 else x * volume.toInt / 128

def saturated (x : Int) (volume : Int8) (y : Int) (volume' : Int8) : Int :=
  clamp (x * volume.toInt / 128 + y * volume'.toInt / 128)

variable {x y : Int} {v w : Int8}

theorem mul_volume_lt (h : -32768 ≤ x ∧ x ≤ 32767) (hn : ¬ Overdriven x v) : x * v.toInt < 4194304 := by
  have hv := int8_bounds v
  by_cases hx : x = -32768
  · have hne : v.toInt ≠ -128 := by
      intro he
      exact hn ⟨hx, Int8.toInt_inj.1 he⟩
    rw [hx]
    omega
  · have hm := mul_bounds (x := x) (a := 32767) (b := 128) (by omega) hv
    omega

theorem amplify_cases (h : -32768 ≤ x ∧ x ≤ 32767) (v : Int8) :
    (Overdriven x v ∧ Echo.amplify x v = -32768 ∧ x * v.toInt / 128 = 32768) ∨
      (¬ Overdriven x v ∧ Echo.amplify x v = x * v.toInt / 128 ∧ -32768 ≤ x * v.toInt / 128 ∧
        x * v.toInt / 128 ≤ 32767) := by
  by_cases hn : Overdriven x v
  · obtain ⟨rfl, rfl⟩ := hn
    exact .inl ⟨⟨rfl, rfl⟩, by decide, by decide⟩
  · have hl := (amplified_bounds h v).1
    have hu := mul_volume_lt h hn
    have hb : -32768 ≤ x * v.toInt / 128 ∧ x * v.toInt / 128 ≤ 32767 := by omega
    exact .inr ⟨hn, wrap_of_bounds hb, hb⟩

theorem amplify_eq (h : -32768 ≤ x ∧ x ≤ 32767) (v : Int8) : Echo.amplify x v = scaled x v := by
  unfold scaled
  rcases amplify_cases h v with ⟨ho, ha, -⟩ | ⟨hn, ha, -⟩
  · rw [if_pos ho, ha]
  · rw [if_neg hn, ha]

theorem toInt_side (hx : -32768 ≤ x ∧ x ≤ 32767) (hy : -32768 ≤ y ∧ y ≤ 32767) (v w : Int8) :
    (Int16.ofInt (clamp (Echo.amplify x v + Echo.amplify y w))).toInt =
      clamp (scaled x v + scaled y w) := by
  have hc := clamp_bounds (scaled x v + scaled y w)
  rw [amplify_eq hx, amplify_eq hy]
  exact Int16.toInt_ofInt_of_le (by omega) (by omega)

theorem clamp_scaled_iff (hx : -32768 ≤ x ∧ x ≤ 32767) (hy : -32768 ≤ y ∧ y ≤ 32767) :
    clamp (scaled x v + scaled y w) = saturated x v y w ↔ ¬ Overdriven x v ∧ ¬ Overdriven y w := by
  rw [← amplify_eq hx, ← amplify_eq hy]
  unfold saturated clamp
  -- a term that wraps is at the other end of the range, and the other one cannot bring the sum back from there
  rcases amplify_cases hx v with ⟨ho, ha, he⟩ | ⟨hn, ha, hb⟩
  · rcases amplify_cases hy w with ⟨-, ha', he'⟩ | ⟨-, ha', hb'⟩
    · simp only [ho, not_true_eq_false, false_and, iff_false]
      omega
    · simp only [ho, not_true_eq_false, false_and, iff_false]
      omega
  · rcases amplify_cases hy w with ⟨ho', ha', he'⟩ | ⟨hn', ha', hb'⟩
    · simp only [ho', not_true_eq_false, and_false, iff_false]
      omega
    · simp only [ha, ha', hn, hn', not_false_eq_true, and_self]

end Sample

namespace Dsp

open Sample

variable {d : Dsp}

theorem output_of_audible (h : d.silenced = false) (echo : Echo) {filtered : Stereo Int} (hf : filtered.Small) :
    ((d.withEcho echo).output filtered).map Int16.toInt =
      ⟨clamp (scaled d.mainMix.left d.mainVolume.left + scaled filtered.left echo.volume.left),
        clamp (scaled d.mainMix.right d.mainVolume.right + scaled filtered.right echo.volume.right)⟩ := by
  obtain ⟨hl, hr⟩ : d.mainMix.Small := d.small_mix _
  have hs : (d.withEcho echo).silenced = false := h
  rw [output, hs, ← toInt_side hl hf.1, ← toInt_side hr hf.2]
  rfl

theorem generate_output (d : Dsp) (ram : Ram) :
    (d.generate ram).1 = ((d.prepare ram).withEcho (d.echo.receive ram)).output (d.echo.receive ram).filter := by
  obtain ⟨counter, noise, voices, ended, hp⟩ := d.prepare_frame ram
  rw [generate_eq_finish, finish_eq, hp]
  rfl

theorem generate_audible (h : d.silenced = false) (ram : Ram) :
    (d.generate ram).1.map Int16.toInt =
      ⟨clamp (scaled (d.prepare ram).mainMix.left d.mainVolume.left +
          scaled (d.echo.receive ram).filter.left d.echo.volume.left),
        clamp (scaled (d.prepare ram).mainMix.right d.mainVolume.right +
          scaled (d.echo.receive ram).filter.right d.echo.volume.right)⟩ := by
  obtain ⟨counter, noise, voices, ended, hp⟩ := d.prepare_frame ram
  have hs : (d.prepare ram).silenced = false := by
    rw [hp]
    exact h
  have hv : (d.prepare ram).mainVolume = d.mainVolume := by rw [hp]
  rw [generate_output, output_of_audible hs _ (Echo.filter_small _), hv]
  rfl

/-- Where the output is not silenced, each side is the saturated sum of the mix and the filtered echo at their volumes,
with the one product that does not fit 16 bits wrapped. So it is the sum in unbounded integers, saturated, exactly if
neither the mix nor the echo is overdriven. -/
theorem generate_saturates_iff (h : d.silenced = false) (ram : Ram) :
    let main := (d.prepare ram).mainMix
    let fir := (d.echo.receive ram).filter
    let volume := d.mainVolume
    let echoVolume := d.echo.volume
    let frame := (d.generate ram).1.map Int16.toInt
    frame =
        ⟨clamp (scaled main.left volume.left + scaled fir.left echoVolume.left),
          clamp (scaled main.right volume.right + scaled fir.right echoVolume.right)⟩ ∧
      (frame.left = saturated main.left volume.left fir.left echoVolume.left ↔
        ¬ Overdriven main.left volume.left ∧ ¬ Overdriven fir.left echoVolume.left) ∧
      (frame.right = saturated main.right volume.right fir.right echoVolume.right ↔
        ¬ Overdriven main.right volume.right ∧ ¬ Overdriven fir.right echoVolume.right) := by
  intro main fir volume echoVolume frame
  obtain ⟨hl, hr⟩ : main.Small := small_mix _ _
  obtain ⟨hl', hr'⟩ : fir.Small := (d.echo.receive ram).filter_small
  have he : frame =
      ⟨clamp (scaled main.left volume.left + scaled fir.left echoVolume.left),
        clamp (scaled main.right volume.right + scaled fir.right echoVolume.right)⟩ :=
    generate_audible h ram
  refine ⟨he, ?_, ?_⟩
  · rw [he]
    exact clamp_scaled_iff hl hl'
  · rw [he]
    exact clamp_scaled_iff hr hr'

def noiseVoice : Voice where
  volume := ⟨127, 127⟩
  envelope := { gain := 0x7F, stage := .sustain, level := 0x7F0 }

/-- Two voices that play the noise at its lowest value, on the left at the lowest master volume. -/
def loudNoise : Dsp where
  mainVolume := ⟨-128, 127⟩
  flags := 0
  noiseEnable := 3
  voices := #v[noiseVoice, noiseVoice, {}, {}, {}, {}, {}, {}]

theorem generate_saturates_iff_loudNoise :
    loudNoise.silenced = false ∧ ((loudNoise.generate .zero).1.map Int16.toInt).left = -32768 ∧
      saturated (loudNoise.prepare .zero).mainMix.left loudNoise.mainVolume.left
        (loudNoise.echo.receive .zero).filter.left loudNoise.echo.volume.left = 32767 ∧
      ((loudNoise.generate .zero).1.map Int16.toInt).right =
        saturated (loudNoise.prepare .zero).mainMix.right loudNoise.mainVolume.right
          (loudNoise.echo.receive .zero).filter.right loudNoise.echo.volume.right := by
  have h : loudNoise.silenced = false := rfl
  have hm : (loudNoise.prepare .zero).mainMix = ⟨-32768, -32768⟩ := by decide +kernel
  have hf : (loudNoise.echo.receive .zero).filter = ⟨0, 0⟩ := by decide +kernel
  obtain ⟨he, -, hr⟩ := generate_saturates_iff h .zero
  refine ⟨h, ?_, ?_, hr.2 ?_⟩
  · rw [he, hm, hf]
    decide
  · rw [hm, hf]
    decide
  · rw [hm, hf]
    decide

end Dsp

end SoundUnit
