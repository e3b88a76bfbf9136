import SoundUnit.Proofs.Output.Headroom

namespace SoundUnit

namespace OutputFilter

/-- No farther from zero, and not on the other side of it. -/
def Nearer (s s' : Int) : Prop := s'.natAbs ≤ s.natAbs ∧ (0 ≤ s → 0 ≤ s') ∧ (s ≤ 0 → s' ≤ 0)

/-- How far a number is from where it stops leaking. -/
def excess (bass : Nat) (s : Int) : Nat := (max (-s) (s + 1 - (2 ^ bass : Nat))).toNat

/-- The number of samples after which a constant input is not heard any more. -/
def settlingTime (bass : Nat) : Nat := (32 - bass) * 2 ^ bass + 2

section Leaking

variable {bass : Nat} {s : Int}

theorem nearer_leaked (bass : Nat) (s : Int) : Nearer s (leaked bass s) := by
  unfold Nearer
  rcases Int.le_total 0 s with h | h
  · have hb := leaked_of_nonneg bass h
    omega
  · have hb := leaked_of_nonpos bass h
    omega

theorem leaked_drop {m : Nat} (h : m * 2 ^ bass ≤ s.natAbs) : (leaked bass s).natAbs + m ≤ s.natAbs := by
  have hpos : (0 : Int) < (2 ^ bass : Nat) := by exact_mod_cast Nat.two_pow_pos bass
  rcases Int.le_total 0 s with hs | hs
  · have hq : (m : Int) ≤ s >>> bass := by
      rw [Int.shiftRight_eq_div_pow, Int.le_ediv_iff_mul_le hpos, ← Int.natCast_mul]
      omega
    have hb := leaked_of_nonneg bass hs
    unfold leaked at *
    omega
  · have hq : s >>> bass ≤ -(m : Int) := by
      rw [Int.shiftRight_eq_div_pow]
      refine Int.ediv_le_of_le_mul hpos ?_
      rw [Int.neg_mul, ← Int.natCast_mul]
      omega
    have hb := leaked_of_nonpos bass hs
    unfold leaked at *
    omega

theorem leaked_of_neg (h : s < 0) : (leaked bass s).natAbs + 1 ≤ s.natAbs := by
  have hpos : (0 : Int) < (2 ^ bass : Nat) := by exact_mod_cast Nat.two_pow_pos bass
  have hq : s >>> bass < 0 := by
    rw [Int.shiftRight_eq_div_pow]
    exact Int.ediv_lt_of_lt_mul hpos (by omega)
  have hb := leaked_of_nonpos bass (Int.le_of_lt h)
  unfold leaked at *
  omega

theorem excess_eq_zero : excess bass s = 0 ↔ 0 ≤ s ∧ s < (2 ^ bass : Nat) := by
  unfold excess
  omega

theorem excess_le (h : s.natAbs ≤ 2 ^ bass) : excess bass s ≤ 2 ^ bass := by
  have hpos := Nat.two_pow_pos bass
  unfold excess
  omega

theorem excess_leaked_lt (h : 0 < excess bass s) : excess bass (leaked bass s) + 1 ≤ excess bass s := by
  have hpos := Nat.two_pow_pos bass
  have hs : s < 0 ∨ ((2 ^ bass : Nat) : Int) ≤ s := by
    unfold excess at h
    omega
  have hd : (leaked bass s).natAbs + 1 ≤ s.natAbs := by
    rcases hs with hs | hs
    · exact leaked_of_neg hs
    · exact leaked_drop (by omega)
  obtain ⟨-, hl, hu⟩ := nearer_leaked bass s
  unfold excess
  omega

theorem excess_leaked_le (bass : Nat) (s : Int) : excess bass (leaked bass s) ≤ excess bass s := by
  have hpos := Nat.two_pow_pos bass
  obtain ⟨hb, hl, hu⟩ := nearer_leaked bass s
  unfold excess
  omega

/-- What no step makes larger, and every step that starts above `t` makes smaller by `d`, is down at `t` once there have
been enough steps. -/
theorem iterate_le {α : Type} {f : α → α} (μ : α → Nat) {t d : Nat} (hle : ∀ x, μ (f x) ≤ μ x)
    (hd : ∀ x, t < μ x → μ (f x) + d ≤ μ x) {n : Nat} {x : α} (h : μ x ≤ t + n * d) : μ (f^[n] x) ≤ t := by
  induction n generalizing x with
  | zero => simpa using h
  | succ n ih =>
    rw [Function.iterate_succ_apply]
    apply ih
    rw [Nat.succ_mul] at h
    by_cases ht : t < μ x
    · have hx := hd x ht
      omega
    · have hx := hle x
      omega

theorem iterate_leaked_le (j : Nat) (h : s.natAbs ≤ 2 ^ (bass + j)) :
    ((leaked bass)^[j * 2 ^ bass] s).natAbs ≤ 2 ^ bass := by
  induction j generalizing s with
  | zero => simpa using h
  | succ j ih =>
    have hp : 2 ^ (bass + (j + 1)) = 2 ^ (bass + j) + 2 ^ bass * 2 ^ j := by
      rw [← Nat.add_assoc, Nat.pow_succ, Nat.mul_two, ← Nat.pow_add]
    have hj : 2 ^ (bass + j) = 2 ^ j * 2 ^ bass := by rw [Nat.pow_add, Nat.mul_comm]
    rw [Nat.succ_mul, Function.iterate_add_apply]
    refine ih (iterate_le Int.natAbs (d := 2 ^ j) (fun x ↦ (nearer_leaked bass x).1) (fun x hx ↦ ?_) (hp ▸ h))
    exact leaked_drop (hj ▸ Nat.le_of_lt hx)

theorem iterate_leaked_settled (bass : Nat) (hb : bass ≤ 31) (hs : s.natAbs ≤ 2 ^ 31) {n : Nat}
    (hn : (32 - bass) * 2 ^ bass ≤ n) : 0 ≤ (leaked bass)^[n] s ∧ (leaked bass)^[n] s < (2 ^ bass : Nat) := by
  have hsum : bass + (31 - bass) = 31 := by omega
  have hstep : 32 - bass = 31 - bass + 1 := by omega
  rw [hstep, Nat.succ_mul] at hn
  obtain ⟨r, rfl⟩ := Nat.exists_eq_add_of_le' (Nat.le_of_add_right_le hn)
  have hlow := excess_le (iterate_leaked_le (31 - bass) (hsum.symm ▸ hs))
  rw [Function.iterate_add_apply, ← excess_eq_zero]
  refine Nat.eq_zero_of_le_zero ?_
  refine iterate_le (excess bass) (d := 1) (excess_leaked_le bass) (fun x ↦ excess_leaked_lt) ?_
  omega

end Leaking

namespace Channel

structure Steady (c : Channel) (input : Int16) : Prop where
  previous : c.previous = 3 * input.toInt
  lowPass : c.lowPass = 4 * input.toInt

def next (gain : Int32) (bass : Nat) (input : Int16) (c : Channel) : Channel := (c.process gain bass input).2

variable {c : Channel} {gain : Int32} {bass : Nat} {input : Int16}

theorem steady_next_next (gain : Int32) (bass : Nat) (input : Int16) (c : Channel) :
    ((c.next gain bass input).next gain bass input).Steady input where
  previous := rfl
  lowPass := by
    simp only [next, process]
    omega

theorem natAbs_integrator_le (c : Channel) : c.integrator.toInt.natAbs ≤ 2 ^ 31 := by
  have hl := c.integrator.le_toInt
  have hu := c.integrator.toInt_lt
  omega

theorem Steady.next (h : c.Steady input) :
    (c.next gain bass input).Steady input ∧
      (c.next gain bass input).integrator.toInt = leaked bass c.integrator.toInt := by
  have hl : input.toInt + c.previous - c.lowPass = 0 := by
    rw [h.previous, h.lowPass]
    omega
  obtain ⟨hb, -, hn⟩ := nearer_leaked bass c.integrator.toInt
  have hu := c.natAbs_integrator_le
  have hc := c.integrator.toInt_lt
  refine ⟨⟨rfl, ?_⟩, ?_⟩
  · simp only [Channel.next, process, h.previous]
    omega
  · simp only [Channel.next, process, hl, Int.zero_mul, Int.add_zero]
    exact Int32.toInt_ofInt_of_le (by unfold leaked at *; omega) (by unfold leaked at *; omega)

theorem Steady.iterate (h : c.Steady input) (n : Nat) :
    ((Channel.next gain bass input)^[n] c).Steady input ∧
      ((Channel.next gain bass input)^[n] c).integrator.toInt = (leaked bass)^[n] c.integrator.toInt := by
  induction n with
  | zero => exact ⟨h, rfl⟩
  | succ n ih =>
    obtain ⟨hs, hi⟩ := ih
    rw [Function.iterate_succ_apply', Function.iterate_succ_apply', ← hi]
    exact hs.next

/-- After two samples the integrator leaks and does nothing else. -/
theorem integrator_iterate (gain : Int32) (bass : Nat) (input : Int16) (c : Channel) (n : Nat) :
    ((Channel.next gain bass input)^[n + 2] c).integrator.toInt =
      (leaked bass)^[n] ((Channel.next gain bass input)^[2] c).integrator.toInt := by
  rw [Function.iterate_add_apply]
  exact ((steady_next_next gain bass input c).iterate n).2

theorem silent_iterate (gain : Int32) (hb : bass ≤ 10) (input : Int16) (c : Channel) {n : Nat}
    (hn : settlingTime bass ≤ n) :
    (((Channel.next gain bass input)^[n] c).process gain bass input).1 = 0 := by
  unfold settlingTime at hn
  obtain ⟨m, rfl⟩ := Nat.exists_eq_add_of_le' (Nat.le_of_add_left_le hn)
  obtain ⟨hl, hu⟩ := iterate_leaked_settled bass (n := m) (by omega)
    ((Channel.next gain bass input)^[2] c).natAbs_integrator_le (by omega)
  have hp : 2 ^ bass ≤ 2 ^ 10 := Nat.pow_le_pow_right (by decide) hb
  rw [← integrator_iterate] at hl hu
  have ho := toInt_output ((Channel.next gain bass input)^[m + 2] c) gain bass input
  rw [shiftRight_ten, Int.ediv_eq_zero_of_lt hl (by omega)] at ho
  exact Int16.toInt_inj.1 ho

theorem nearer_iterate (gain : Int32) (bass : Nat) (input : Int16) (c : Channel) {n : Nat} (hn : 2 ≤ n) :
    Nearer ((Channel.next gain bass input)^[n] c).integrator.toInt
      ((Channel.next gain bass input)^[n + 1] c).integrator.toInt := by
  obtain ⟨m, rfl⟩ := Nat.exists_eq_add_of_le' hn
  rw [Nat.add_right_comm m 2 1, integrator_iterate gain bass input c (m + 1),
    Function.iterate_succ_apply' (leaked bass), ← integrator_iterate]
  exact nearer_leaked bass _

end Channel

def hold (f : OutputFilter) (frame : Frame) (n : Nat) : OutputFilter := (fun f ↦ (f.process frame).2)^[n] f

theorem hold_eq (f : OutputFilter) (frame : Frame) (n : Nat) :
    f.hold frame n =
      { f with
        left := (Channel.next f.gain f.bass frame.left)^[n] f.left
        right := (Channel.next f.gain f.bass frame.right)^[n] f.right } := by
  induction n with
  | zero => rfl
  | succ n ih =>
    unfold hold at ih ⊢
    rw [Function.iterate_succ_apply', ih, Function.iterate_succ_apply', Function.iterate_succ_apply']
    rfl

/-- Whatever a filter has been through, a constant input is not heard any more after a time that only the bass setting
decides, up to a setting of ten. From the third sample on the integrators come nearer to zero and do not cross it. -/
theorem blocks_constant (f : OutputFilter) {bass : Nat} (hb : bass ≤ 10) (frame : Frame) :
    let held := (f.setBass bass).hold frame
    (∀ n, settlingTime bass ≤ n → ((held n).process frame).1 = Frame.silence) ∧
      ∀ n, 2 ≤ n → Nearer (held n).left.integrator.toInt (held (n + 1)).left.integrator.toInt ∧
        Nearer (held n).right.integrator.toInt (held (n + 1)).right.integrator.toInt := by
  intro held
  have hset : (f.setBass bass).bass = bass := Nat.min_eq_left (Nat.le_trans hb (by decide))
  have heq (n : Nat) : held n = _ := (f.setBass bass).hold_eq frame n
  rw [hset] at heq
  constructor
  · intro n hn
    have hl := Channel.silent_iterate f.gain hb frame.left f.left hn
    have hr := Channel.silent_iterate f.gain hb frame.right f.right hn
    rw [heq]
    simp only [process]
    exact (congrArg (Stereo.mk · _) hl).trans (congrArg (Stereo.mk _) hr)
  · intro n hn
    rw [heq, heq]
    exact ⟨Channel.nearer_iterate f.gain bass frame.left f.left hn,
      Channel.nearer_iterate f.gain bass frame.right f.right hn⟩

theorem blocks_constant_steepest :
    let f := steepest.foldl operate (({} : OutputFilter).setGain 8191)
    let held := (f.setBass normalBass).hold ⟨32767, -32768⟩
    normalBass ≤ 10 ∧ f.left.integrator.toInt = 2147188740 ∧
      ((held 6146).process ⟨32767, -32768⟩).1 = Frame.silence ∧
      Nearer (held 2).left.integrator.toInt (held 3).left.integrator.toInt := by
  intro f held
  have hb : normalBass ≤ 10 := by decide
  obtain ⟨hs, hn⟩ := blocks_constant f hb ⟨32767, -32768⟩
  exact ⟨hb, by decide, hs 6146 (by decide), (hn 2 (Nat.le_refl 2)).1⟩

/-- At a setting of eleven a positive integrator can stop where it is still heard. -/
example : leaked 11 2047 = 2047 ∧ Sample.clamp ((2047 : Int) >>> (10 : Nat)) = 1 := by decide

end OutputFilter

end SoundUnit
