import SoundUnit.Voice.Basic

namespace SoundUnit

namespace Envelope

theorem valid_iff {e : Envelope} : e.Valid ↔ 0 ≤ e.level.toInt ∧ e.level.toInt ≤ 0x7FF := by
  simp only [Valid, Int16.le_iff_toInt_le]
  rfl

theorem valid_of_level {e : Envelope} {x : Int} (h : e.level = Int16.ofInt x) (hx : 0 ≤ x)
    (hx' : x ≤ 0x7FF) : e.Valid := by
  have he : (Int16.ofInt x).toInt = x := Int16.toInt_ofInt_of_le (by omega) (by omega)
  rw [valid_iff, h, he]
  exact ⟨hx, hx'⟩

theorem valid_of_level_zero {e : Envelope} (h : e.level = 0) : e.Valid :=
  valid_of_level (x := 0) h (by decide) (by decide)

theorem Valid.of_level_eq {e e' : Envelope} (h : e.Valid) (he : e'.level = e.level) : e'.Valid := by
  rw [valid_iff, he]
  exact valid_iff.1 h

theorem keyOn_valid (e : Envelope) : e.keyOn.Valid := valid_of_level_zero rfl

theorem stop_valid (e : Envelope) : e.stop.Valid := valid_of_level_zero rfl

theorem hold_valid (e : Envelope) : e.hold.Valid := valid_of_level_zero rfl

theorem Valid.clock {e : Envelope} (h : e.Valid) (counter : UInt16) : (e.clock counter).Valid := by
  have hl := valid_iff.1 h
  unfold Envelope.clock
  split
  · exact h
  · exact valid_of_level rfl (by omega) (by omega)
  · by_cases hf : e.candidate.2.fires counter
    · refine valid_of_level (x := min maxLevel (max 0 e.candidate.1)) (if_pos hf) ?_ ?_
      all_goals unfold maxLevel; omega
    · exact h.of_level_eq (if_neg hf)

end Envelope

namespace SampleStream

theorem one_offset : (1 : UInt16) % 2 = 1 ∧ (1 : UInt16) < Block.size := by decide

theorem add_two_offset {offset : UInt16} (h : offset % 2 = 1) : (offset + 2) % 2 = 1 := by
  have hlt := offset.toNat_lt
  rw [← UInt16.toNat_inj, UInt16.toNat_mod] at h ⊢
  rw [UInt16.toNat_add]
  change offset.toNat % 2 = 1 at h
  change (offset.toNat + 2) % 65536 % 2 = 1
  omega

theorem restart_valid (s : SampleStream) (block : UInt16) : (s.restart block).Valid :=
  ⟨Nat.zero_lt_succ 11, rfl, one_offset.1, one_offset.2, UInt8.zero_le⟩

theorem Valid.of_group {s t : SampleStream} (h : s.Valid) (hp : t.position = (s.position + 4) % 12)
    (ho : t.offset = s.offset) (ht : t.tail ≤ groups) : t.Valid := by
  obtain ⟨-, hs, hodd, hlt, -⟩ := h
  refine ⟨?_, ?_, ho ▸ hodd, ho ▸ hlt, ht⟩
  · omega
  · omega

theorem position_four (p : Nat) : ((((p + 1) % 12 + 1) % 12 + 1) % 12 + 1) % 12 = (p + 4) % 12 := by omega

theorem Valid.decodeData {s : SampleStream} (h : s.Valid) (ram : Ram) (header : BlockHeader) :
    (s.decodeData ram header).Valid :=
  h.of_group (position_four s.position) rfl h.2.2.2.2

theorem Valid.advance {s : SampleStream} (h : s.Valid) (header : BlockHeader) (loop : UInt16) :
    (s.advance header loop).1.Valid := by
  obtain ⟨hp, hp', ho, -, ht⟩ := h
  obtain ⟨ho₁, hlt₁⟩ := one_offset
  unfold SampleStream.advance
  split
  next hlt => exact ⟨hp, hp', add_two_offset ho, hlt, ht⟩
  next =>
    split
    · exact ⟨hp, hp', ho₁, hlt₁, ht⟩
    · split
      · exact ⟨hp, hp', ho₁, hlt₁, ht⟩
      · exact ⟨hp, hp', ho₁, hlt₁, UInt8.le_refl _⟩

theorem Valid.decodeGroup {s : SampleStream} (h : s.Valid) (ram : Ram) (loop : UInt16) :
    (s.decodeGroup ram loop).1.Valid := by
  unfold SampleStream.decodeGroup
  split
  next =>
    obtain ⟨hp, hp', ho, hlt, -⟩ := h
    exact ⟨hp, hp', ho, hlt, UInt8.zero_le⟩
  next =>
    split
    next ht =>
      have hg : s.tail - 1 ≤ groups := by
        have := h.2.2.2.2
        grind [groups]
      exact h.of_group (position_four s.position) rfl hg
    next => exact (h.decodeData ram _).advance _ loop

end SampleStream

namespace Voice

theorem stop_valid {v : Voice} (hc : v.counter.toNat ≤ maxCounter) (hs : v.stream.Valid) : v.stop.Valid :=
  ⟨UInt8.zero_le, hc, v.envelope.stop_valid, hs⟩

theorem Valid.keyOn {v : Voice} (h : v.Valid) : v.keyOn.Valid :=
  ⟨UInt8.le_refl _, h.2.1, v.envelope.keyOn_valid, h.2.2.2⟩

theorem Valid.keyOff {v : Voice} (h : v.Valid) : v.keyOff.Valid := h

theorem Valid.stop {v : Voice} (h : v.Valid) : v.stop.Valid := stop_valid h.2.1 h.2.2.2

theorem Valid.showReadback {v : Voice} (h : v.Valid) : v.showReadback.Valid := h

theorem Valid.writeRegister {v : Voice} (h : v.Valid) (data : UInt8) (r : VoiceRegister) :
    (v.writeRegister data r).Valid := by
  cases r <;> exact h

theorem Valid.decode {v : Voice} (h : v.Valid) (ram : Ram) (directory : UInt16) :
    (v.decode ram directory).1.Valid := by
  obtain ⟨hd, hc, he, hs⟩ := h
  have hs' := hs.decodeGroup ram (readAddress ram (v.directoryEntry directory + 2))
  unfold Voice.decode
  dsimp only
  split
  · exact ⟨hd, hc, he, hs'⟩
  · exact ⟨hd, hc, he, hs'⟩
  · exact ⟨hd, hc, he, hs'⟩
  · exact stop_valid hc hs'

def restarted (v : Voice) (ram : Ram) (tick : Tick) : Voice :=
  if v.startDelay = keyOnDelay then
    { v with stream := v.stream.restart (readAddress ram (v.directoryEntry tick.directory)), counter := 0 }
  else v

def warmUp (v : Voice) (ram : Ram) (tick : Tick) : Voice × Bool :=
  if 1 ≤ v.startDelay ∧ v.startDelay ≤ 3 then v.decode ram tick.directory else (v, false)

theorem startUp_eq (v : Voice) (ram : Ram) (tick : Tick) :
    let w := v.restarted ram tick
    let p := warmUp { w with startDelay := w.startDelay - 1 } ram tick
    v.startUp ram tick = ({ p.1 with envelope := p.1.envelope.hold, output := 0 }.showReadback, p.2) := rfl

theorem startDelay_restarted (v : Voice) (ram : Ram) (tick : Tick) :
    (v.restarted ram tick).startDelay = v.startDelay := by
  unfold restarted
  split <;> rfl

theorem Valid.restarted {v : Voice} (h : v.Valid) (ram : Ram) (tick : Tick) : (v.restarted ram tick).Valid := by
  unfold Voice.restarted
  split
  · have hc : ((0 : UInt16).toNat : Int) ≤ maxCounter := by decide
    exact ⟨h.1, hc, h.2.2.1, v.stream.restart_valid _⟩
  · exact h

theorem Valid.warmUp {v : Voice} (h : v.Valid) (ram : Ram) (tick : Tick) : (v.warmUp ram tick).1.Valid := by
  unfold Voice.warmUp
  split
  · exact h.decode ram tick.directory
  · exact h

theorem Valid.startUp {v : Voice} (h : v.Valid) (hd : 0 < v.startDelay) (ram : Ram) (tick : Tick) :
    (v.startUp ram tick).1.Valid := by
  have hr := h.restarted ram tick
  have hdelay : (v.restarted ram tick).startDelay - 1 ≤ keyOnDelay := by
    have := h.1
    rw [startDelay_restarted]
    grind [keyOnDelay]
  have hw := Valid.warmUp (v := { v.restarted ram tick with
    startDelay := (v.restarted ram tick).startDelay - 1 }) ⟨hdelay, hr.2⟩ ram tick
  rw [startUp_eq]
  exact ⟨hw.1, hw.2.1, Envelope.hold_valid _, hw.2.2.2⟩

theorem toNat_clamp_counter (position : Int) :
    ((UInt16.ofNat (min maxCounter (max 0 position)).toNat).toNat : Int) ≤ maxCounter := by
  have h : (min maxCounter (max 0 position)).toNat < 2 ^ 16 := by
    unfold maxCounter
    omega
  rw [UInt16.toNat_ofNat_of_lt' h]
  unfold maxCounter
  omega

theorem Valid.advance {v : Voice} (h : v.Valid) (ram : Ram) (tick : Tick) : (v.advance ram tick).1.Valid := by
  unfold Voice.advance
  split
  next w ended heq =>
    have hw : w.Valid := by
      split at heq
      · have he : (v.decode ram tick.directory).1 = w := congrArg Prod.fst heq
        exact he ▸ h.decode ram tick.directory
      · have he : v = w := congrArg Prod.fst heq
        exact he ▸ h
    split
    · exact hw
    · exact ⟨hw.1, toNat_clamp_counter _, hw.2.2⟩

theorem Valid.play {v : Voice} (h : v.Valid) (ram : Ram) (tick : Tick) : (v.play ram tick).1.Valid := by
  have he := h.2.2.1.clock tick.counter
  refine Valid.showReadback (Valid.advance ?_ ram tick)
  exact ⟨h.1, h.2.1, he, h.2.2.2⟩

theorem Valid.clock {v : Voice} (h : v.Valid) (ram : Ram) (tick : Tick) : (v.clock ram tick).1.Valid := by
  unfold Voice.clock
  split
  · exact h.startUp ‹_› ram tick
  · split
    · exact h
    · exact h.play ram tick

end Voice

end SoundUnit
