import SoundUnit.Proofs.Dsp.KeyOn
import SoundUnit.Proofs.Dsp.Reachable
import SoundUnit.Proofs.Voice.Rest

namespace SoundUnit

namespace Envelope

theorem level_release {e : Envelope} (h : e.Valid) : e.release.level.toInt = max (e.level.toInt - 8) 0 := by
  have hl := valid_iff.1 h
  exact Int16.toInt_ofInt_of_le (by omega) (by omega)

theorem stage_release (e : Envelope) :
    e.release.stage = if max (e.level.toInt - 8) 0 = 0 then .off else e.stage := rfl

end Envelope

namespace Voice

/-- A release takes no more ticks: those of the start that are left and one more, or one for every eight steps of the
level. -/
def releaseTicks (v : Voice) : Nat := max (v.startDelay.toNat + 1) ((v.envelope.level.toInt.toNat + 7) / 8)

/-- The voice is released. Its level is not above the given one, and it is off after the given number of ticks. -/
structure Fading (level : Int) (ticks : Nat) (v : Voice) : Prop where
  contained : v.Contained
  stage : v.envelope.stage = .release ∨ v.envelope.stage = .off
  level_le : v.envelope.level.toInt ≤ level
  ticks_le : v.envelope.stage ≠ .off → v.releaseTicks ≤ ticks

theorem Contained.level_nonneg {v : Voice} (h : v.Contained) : 0 ≤ v.envelope.level.toInt :=
  (Envelope.valid_iff.1 h.envelope.level).1

theorem Contained.fading_keyOff {v : Voice} (h : v.Contained) :
    v.keyOff.Fading v.envelope.level.toInt v.releaseTicks where
  contained := h.keyOff
  stage := by
    by_cases ho : v.envelope.stage = .off
    · exact .inr (if_pos ho)
    · exact .inl (if_neg ho)
  level_le := Int.le_refl _
  ticks_le _ := Nat.le_refl _

theorem fading_stop (v : Voice) {level : Int} (h : 0 ≤ level) (ticks : Nat) : v.stop.Fading level ticks where
  contained := .stop v
  stage := .inr rfl
  level_le := h
  ticks_le hon := absurd rfl hon

namespace Fading

variable {level : Int} {ticks : Nat} {v : Voice}

theorem off (h : v.Fading level 0) : v.envelope.stage = .off := by
  refine Decidable.byContradiction fun hon ↦ ?_
  have ht := h.ticks_le hon
  unfold releaseTicks at ht
  omega

theorem writeRegister (h : v.Fading level ticks) (data : UInt8) (r : VoiceRegister) :
    (v.writeRegister data r).Fading level ticks := by
  have hc := h.contained.writeRegister data r
  obtain ⟨-, hs, hl, ht⟩ := h
  cases r <;> exact ⟨hc, hs, hl, ht⟩

theorem keyOff (h : v.Fading level ticks) : v.keyOff.Fading level ticks := by
  have hk := h.contained.fading_keyOff
  refine ⟨hk.contained, hk.stage, h.level_le, fun hon ↦ h.ticks_le fun ho ↦ hon ?_⟩
  exact if_pos ho

theorem stop (h : v.Fading level ticks) : v.stop.Fading level ticks :=
  fading_stop v (Int.le_trans h.contained.level_nonneg h.level_le) ticks

theorem clock (h : v.Fading level ticks) (ram : Ram) (tick : Tick) :
    (v.clock ram tick).1.Fading level (ticks - 1) := by
  have hc := h.contained.clock ram tick
  have hd := v.startDelay_clock_le ram tick
  have hv := h.contained.level_nonneg
  have hle := h.level_le
  generalize hw : (v.clock ram tick).1 = w at hc hd
  obtain ⟨-, ho, hl⟩ | ⟨hn, he⟩ | ⟨hz, he⟩ := v.clock_cases ram tick hw
  · refine ⟨hc, .inr ho, ?_, fun hon ↦ absurd ho hon⟩
    rw [hl, Int16.toInt_zero]
    omega
  · have hp : 0 < v.startDelay.toNat := UInt8.lt_iff_toNat_lt.1 (UInt8.pos_iff_ne_zero.2 hn)
    have hs : w.envelope.stage = v.envelope.stage := by
      rw [he]
      rfl
    have hl : w.envelope.level = 0 := by
      rw [he]
      rfl
    refine ⟨hc, hs ▸ h.stage, ?_, fun hon ↦ ?_⟩
    · rw [hl, Int16.toInt_zero]
      omega
    · have ht := h.ticks_le (hs ▸ hon)
      unfold releaseTicks at ht ⊢
      rw [hl, Int16.toInt_zero, Int.toNat_zero]
      omega
  · rcases h.stage with hr | ho
    · have hrel : w.envelope = v.envelope.release := by
        rw [he, Envelope.clock, hr]
      have hl := Envelope.level_release h.contained.envelope.level
      have hs := v.envelope.stage_release
      rw [← hrel] at hl hs
      refine ⟨hc, ?_, by omega, fun hon ↦ ?_⟩
      · rw [hs, hr]
        split
        · exact .inr rfl
        · exact .inl rfl
      · have ht := h.ticks_le (by rw [hr]; decide)
        have hpos : max (v.envelope.level.toInt - 8) 0 ≠ 0 := fun hzero ↦ hon (hs.trans (if_pos hzero))
        unfold releaseTicks at ht ⊢
        rw [hl, hz, UInt8.toNat_zero]
        omega
    · have hsame : w.envelope = v.envelope := by
        rw [he, Envelope.clock, ho]
      rw [← hsame] at ho hle
      exact ⟨hc, .inr ho, hle, fun hon ↦ absurd ho hon⟩

end Fading

end Voice

namespace Dsp

def Period.WithoutKeyOn (v : Fin 8) (p : Period) : Prop := ∀ w ∈ p.writes, ¬ RequestsKeyOn v w

instance (v : Fin 8) (p : Period) : Decidable (p.WithoutKeyOn v) := inferInstanceAs (Decidable (∀ _ ∈ _, _))

theorem read_keyOff (d : Dsp) : d.read 0x5C = d.keyOff := rfl

section Periods

variable {d : Dsp} {v : Fin 8} {p : Period}

theorem receive_voice {P : Voice → Prop} (hw : ∀ v data r, P v → P (Voice.writeRegister v data r))
    (h : P (d.voices.get v)) (writes : List (UInt8 × UInt8)) : P ((d.receive writes).voices.get v) := by
  induction writes generalizing d with
  | nil => exact h
  | cons w writes ih =>
    refine ih ?_
    rcases d.write_voice v w.1 w.2 with he | ⟨r, he⟩
    · rw [he]
      exact h
    · rw [he]
      exact hw _ w.2 r h

theorem not_pending_receive (hp : Bit.test d.pendingKeyOn v = false) (hw : p.WithoutKeyOn v) :
    Bit.test (d.receive p.writes).pendingKeyOn v = false := by
  refine Bool.eq_false_iff.2 fun ht ↦ ?_
  rcases (d.pending_receive v p.writes).1 ht with h | ⟨w, hm, h⟩
  · rw [hp] at h
    exact nomatch h
  · exact hw w hm h

theorem not_pending_pass (d : Dsp) (v : Fin 8) (p : Period) : Bit.test (d.pass p).pendingKeyOn v = false := by
  rw [pass, pendingKeyOn_tick, Bit.test_zero]

theorem keyed_invariant {P : Voice → Prop} (hp : Bit.test d.pendingKeyOn v = false)
    (hk : ∀ voice, P voice → P (Voice.keyOff voice)) (hs : ∀ voice, P voice → P (Voice.stop voice)) {voice : Voice}
    (h : P voice) : P (d.keyed v voice) := by
  obtain ⟨-, he⟩ | ⟨-, hp', -⟩ | ⟨-, -, he⟩ := d.keyed_cases v voice
  · rw [he]
    exact hs voice h
  · simp [hp] at hp'
  · rw [he]
    split
    · exact hk voice h
    · exact h

theorem pass_voice {P : Voice → Prop} (hp : Bit.test d.pendingKeyOn v = false) (hw : p.WithoutKeyOn v)
    (hr : ∀ v data r, P v → P (Voice.writeRegister v data r)) (hk : ∀ voice, P voice → P (Voice.keyOff voice))
    (hs : ∀ voice, P voice → P (Voice.stop voice)) (h : P (d.voices.get v)) :
    ∃ voice tick, P voice ∧ (d.pass p).voices.get v = (voice.clock p.ram tick).1 := by
  obtain ⟨tick, hv, -⟩ := (d.receive p.writes).tick_voice p.ram v
  exact ⟨_, tick, keyed_invariant (not_pending_receive hp hw) hk hs (receive_voice hr h p.writes), hv⟩

theorem fading_pass {level : Int} {ticks : Nat} (hp : Bit.test d.pendingKeyOn v = false) (hw : p.WithoutKeyOn v)
    (h : (d.voices.get v).Fading level ticks) : ((d.pass p).voices.get v).Fading level (ticks - 1) := by
  obtain ⟨voice, tick, hf, he⟩ := pass_voice hp hw (fun _ data r h ↦ h.writeRegister data r)
    (fun _ h ↦ h.keyOff) (fun _ h ↦ h.stop) h
  rw [he]
  exact hf.clock p.ram tick

theorem fading_foldl_pass {level : Int} {ticks : Nat} (hp : Bit.test d.pendingKeyOn v = false) {periods : List Period}
    (hw : ∀ p ∈ periods, p.WithoutKeyOn v) (h : (d.voices.get v).Fading level ticks) :
    ((periods.foldl pass d).voices.get v).Fading level (ticks - periods.length) := by
  induction periods generalizing d ticks with
  | nil => exact h
  | cons p periods ih =>
    have hl : ticks - (p :: periods).length = ticks - 1 - periods.length := by
      rw [List.length_cons]
      omega
    rw [hl, List.foldl_cons]
    exact ih (not_pending_pass d v p) (fun q hq ↦ hw q (List.mem_cons_of_mem p hq))
      (fading_pass hp (hw p (List.mem_cons_self ..)) h)

theorem fading_pass_of_keyOff (hp : Bit.test d.pendingKeyOn v = false) (hw : p.WithoutKeyOn v)
    (hk : Bit.test (d.receive p.writes).keyOff v = true) (h : (d.voices.get v).Contained) :
    ((d.pass p).voices.get v).Fading (d.voices.get v).envelope.level.toInt ((d.voices.get v).releaseTicks - 1) := by
  generalize hl : (d.voices.get v).envelope.level.toInt = level
  generalize ht : (d.voices.get v).releaseTicks = ticks
  obtain ⟨hc, hl, ht⟩ := receive_voice (P := fun u ↦
      u.Contained ∧ u.envelope.level.toInt = level ∧ u.releaseTicks = ticks)
    (fun u data r hu ↦ ⟨hu.1.writeRegister data r, by cases r <;> exact hu.2⟩) ⟨h, hl, ht⟩ p.writes
  have hp' := not_pending_receive hp hw
  obtain ⟨tick, hv, -⟩ := (d.receive p.writes).tick_voice p.ram v
  generalize (d.receive p.writes).voices.get v = u at hc hl ht hv
  have hf : ((d.receive p.writes).keyed v u).Fading level ticks := by
    obtain ⟨-, he⟩ | ⟨-, hon, -⟩ | ⟨-, -, he⟩ := (d.receive p.writes).keyed_cases v u
    · rw [he]
      exact Voice.fading_stop u (hl ▸ hc.level_nonneg) ticks
    · simp [hp'] at hon
    · rw [he, if_pos hk, ← hl, ← ht]
      exact hc.fading_keyOff
  rw [pass, hv]
  exact hf.clock p.ram tick

theorem rests_pass {u : Voice} (hp : Bit.test d.pendingKeyOn v = false) (hw : p.WithoutKeyOn v)
    (h : u.Rests (d.voices.get v)) :
    u.Rests ((d.pass p).voices.get v) ∧ ((d.pass p).voices.get v).output = 0 := by
  obtain ⟨voice, tick, hr, he⟩ := pass_voice hp hw (fun _ data r h ↦ h.writeRegister data r)
    (fun _ h ↦ h.keyOff) (fun _ h ↦ h.stop) h
  obtain ⟨hc, ho, -⟩ := hr.clock p.ram tick
  rw [he]
  exact ⟨hc, ho⟩

theorem rests_foldl_pass {u : Voice} (hp : Bit.test d.pendingKeyOn v = false) {periods : List Period}
    (hw : ∀ q ∈ p :: periods, q.WithoutKeyOn v) (h : u.Rests (d.voices.get v)) :
    u.Rests (((p :: periods).foldl pass d).voices.get v) ∧
      (((p :: periods).foldl pass d).voices.get v).output = 0 := by
  have hr := rests_pass hp (hw p (List.mem_cons_self ..)) h
  induction periods generalizing d p with
  | nil =>
    rw [List.foldl_cons]
    exact hr
  | cons q periods ih =>
    have hw' : ∀ r ∈ q :: periods, r.WithoutKeyOn v := fun r hr ↦ hw r (List.mem_cons_of_mem p hr)
    have hp' := not_pending_pass d v p
    rw [List.foldl_cons]
    exact ih hp' hw' hr.1 (rests_pass hp' (hw' q (List.mem_cons_self ..)) hr.1)

end Periods

theorem Reachable.releaseTicks_le {d : Dsp} (h : d.Reachable) (v : Fin 8) : (d.voices.get v).releaseTicks ≤ 256 := by
  obtain ⟨hd, -, hl, -⟩ := h.valid.2.2.2 v
  have hd' := UInt8.le_iff_toNat_le.1 hd
  have hl' := Envelope.valid_iff.1 hl
  change (d.voices.get v).startDelay.toNat ≤ 5 at hd'
  unfold Voice.releaseTicks
  omega

/-- A key-off silences, whatever the voice was doing and whatever is written to registers meanwhile, as long as there is
no new key-on. From the tick of the key-off on the voice is in its release or off, and its level does not rise. It is
off after the number of ticks that its start or its level takes, which is at most 256; after that it makes no sound and
does not move on in its sample. -/
theorem keyOff_silences {d : Dsp} (hd : d.Reachable) (v : Fin 8) (hp : Bit.test d.pendingKeyOn v = false)
    (first : Period) (later : List Period) (hw : ∀ p ∈ first :: later, p.WithoutKeyOn v)
    (hk : Bit.test ((d.receive first.writes).read 0x5C) v = true) :
    let before := d.voices.get v
    let bound := max (before.startDelay.toNat + 1) ((before.envelope.level.toInt.toNat + 7) / 8)
    let e := later.foldl pass (d.pass first)
    let u := e.voices.get v
    (u.envelope.stage = .release ∨ u.envelope.stage = .off) ∧
      (∀ p : Period, p.WithoutKeyOn v → ((e.pass p).voices.get v).envelope.level.toInt ≤ u.envelope.level.toInt) ∧
      (bound ≤ later.length + 1 → u.envelope.stage = .off ∧ u.envelope.level = 0) ∧
      bound ≤ 256 ∧
      (u.envelope.stage = .off → ∀ (p : Period) (periods : List Period), (∀ q ∈ p :: periods, q.WithoutKeyOn v) →
        let w := ((p :: periods).foldl pass e).voices.get v
        u.Rests w ∧ w.output = 0) := by
  intro before bound e u
  have hp' : Bit.test e.pendingKeyOn v = false := by
    have hz : (d.pass first).pendingKeyOn = 0 := pendingKeyOn_tick ..
    rw [pending_foldl_pass hz, Bit.test_zero]
  rw [read_keyOff] at hk
  have hfirst := fading_pass_of_keyOff hp (hw first (List.mem_cons_self ..)) hk (hd.contained v)
  have hf := fading_foldl_pass (not_pending_pass d v first) (fun p hm ↦ hw p (List.mem_cons_of_mem first hm)) hfirst
  have hu : u.Fading u.envelope.level.toInt u.releaseTicks :=
    ⟨hf.contained, hf.stage, Int.le_refl _, fun _ ↦ Nat.le_refl _⟩
  refine ⟨hf.stage, fun p hq ↦ (fading_pass hp' hq hu).level_le, fun hb ↦ ?_, hd.releaseTicks_le v,
    fun ho p periods hq ↦ rests_foldl_pass hp' hq (hf.contained.rests ho)⟩
  have ho : u.envelope.stage = .off := by
    have hz : before.releaseTicks - 1 - later.length = 0 := by
      change bound - 1 - later.length = 0
      omega
    rw [hz] at hf
    exact hf.off
  exact ⟨ho, hf.contained.envelope.off ho⟩

def startingVoice : Dsp := (((({} : Dsp).write 0x6C 0x20).write 0x4C 0x02).clock 32 .zero).1

def keyOffPeriod (data : UInt8) : Period where
  writes := [(0x5C, data)]
  ram := .zero

theorem keyOffPeriod_withoutKeyOn (data : UInt8) (v : Fin 8) : (keyOffPeriod data).WithoutKeyOn v := by
  intro w hw
  rw [List.mem_singleton.1 hw]
  rintro ⟨ha, -⟩
  change (0x5C : UInt8) = 0x4C at ha
  exact absurd ha (by decide)

theorem keyOff_silences_startingVoice :
    let later := List.replicate 255 (keyOffPeriod 0)
    startingVoice.Reachable ∧ Bit.test startingVoice.pendingKeyOn 1 = false ∧
      (∀ p ∈ keyOffPeriod 2 :: later, p.WithoutKeyOn 1) ∧
      Bit.test ((startingVoice.receive (keyOffPeriod 2).writes).read 0x5C) 1 = true ∧
      ((later.foldl pass (startingVoice.pass (keyOffPeriod 2))).voices.get 1).envelope.stage = .off := by
  intro later
  have hd : startingVoice.Reachable := ((Reachable.initial.write _ _).write _ _).clock _ _
  have hp : Bit.test startingVoice.pendingKeyOn 1 = false := by
    have hz : startingVoice.pendingKeyOn = 0 := pendingKeyOn_tick ..
    rw [hz, Bit.test_zero]
  have hw : ∀ p ∈ keyOffPeriod 2 :: later, p.WithoutKeyOn 1 := by
    intro p hm
    rcases List.mem_cons.1 hm with rfl | hm
    · exact keyOffPeriod_withoutKeyOn 2 1
    · rw [List.eq_of_mem_replicate hm]
      exact keyOffPeriod_withoutKeyOn 0 1
  have hk : Bit.test ((startingVoice.receive (keyOffPeriod 2).writes).read 0x5C) 1 = true := by
    have hr : (startingVoice.receive (keyOffPeriod 2).writes).read 0x5C = 2 := rfl
    rw [hr]
    decide
  obtain ⟨-, -, hoff, hle, -⟩ := keyOff_silences hd 1 hp (keyOffPeriod 2) later hw hk
  have hl : later.length + 1 = 256 := by rw [List.length_replicate]
  rw [hl] at hoff
  exact ⟨hd, hp, hw, hk, (hoff hle).1⟩

end Dsp

end SoundUnit
