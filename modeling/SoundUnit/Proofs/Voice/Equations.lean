import SoundUnit.Proofs.Validity.Voice

namespace SoundUnit

namespace Voice

variable (v : Voice) (ram : Ram) (tick : Tick) (directory : UInt16)

def loopAddress : UInt16 := readAddress ram (v.directoryEntry directory + 2)

def withStream (stream : SampleStream) : Voice := { v with stream }

theorem decode_of {v : Voice} {ram : Ram} {directory : UInt16} {stream : SampleStream} {event : SampleStream.Event}
    (h : v.stream.decodeGroup ram (v.loopAddress ram directory) = (stream, event)) :
    v.decode ram directory =
      (if event = .finished then (v.withStream stream).stop else v.withStream stream,
        decide (event = .looped ∨ event = .ended)) := by
  unfold loopAddress at h
  unfold decode
  rw [h]
  cases event <;> rfl

theorem warmUp_of_decode {v : Voice} {ram : Ram} {tick : Tick} {stream : SampleStream}
    (hd : 1 ≤ v.startDelay ∧ v.startDelay ≤ 3)
    (h : v.stream.decodeGroup ram (v.loopAddress ram tick.directory) = (stream, .none)) :
    v.warmUp ram tick = (v.withStream stream, false) := by
  unfold warmUp
  rw [if_pos hd, decode_of h]
  rfl

def countDown : Voice := { v with startDelay := v.startDelay - 1 }

def hushed : Voice := { v with envelope := v.envelope.hold, output := 0 }.showReadback

theorem startUp_parts :
    v.startUp ram tick =
      (((v.restarted ram tick).countDown.warmUp ram tick).1.hushed,
        ((v.restarted ram tick).countDown.warmUp ram tick).2) := rfl

/-- Decodes the next group when the counter has passed the current one. -/
def refill : Voice × Bool := if groupLength ≤ v.counter then v.decode ram directory else (v, false)

def nextCounter (modulator : Option Int16) : UInt16 :=
  UInt16.ofNat (min maxCounter (max 0 ((v.counter % groupLength).toNat + v.step modulator))).toNat

def move (modulator : Option Int16) : Voice :=
  if v.envelope.stage = .off then v else { v with counter := v.nextCounter modulator }

theorem advance_eq :
    v.advance ram tick =
      ((v.refill ram tick.directory).1.move tick.modulator, (v.refill ram tick.directory).2) := by
  have h (p : Voice × Bool) (hp : (if groupLength ≤ v.counter then v.decode ram tick.directory else (v, false)) = p) :
      v.advance ram tick = (p.1.move tick.modulator, p.2) := by
    unfold advance
    rw [hp]
    unfold move
    dsimp only
    split <;> rfl
  exact h _ rfl

def sounded : Voice :=
  { v with
    output := Int16.ofInt (Sample.even (tick.noise.getD v.interpolated * v.envelope.level.toInt / 2048))
    envelope := v.envelope.clock tick.counter }

theorem play_eq :
    v.play ram tick =
      (((v.sounded tick).advance ram tick).1.showReadback, ((v.sounded tick).advance ram tick).2) := rfl

theorem not_starting {v : Voice} (h : v.startDelay = 0) : ¬ 0 < v.startDelay := by
  rw [h]
  decide

theorem clock_of_starting (h : 0 < v.startDelay) : v.clock ram tick = v.startUp ram tick := if_pos h

theorem clock_of_counting (h : 0 < v.startDelay) (hk : v.startDelay ≠ keyOnDelay) :
    v.clock ram tick = ((v.countDown.warmUp ram tick).1.hushed, (v.countDown.warmUp ram tick).2) := by
  have hr : v.restarted ram tick = v := by
    unfold restarted
    rw [if_neg hk]
  rw [clock_of_starting v ram tick h, startUp_parts, hr]

theorem clock_of_keyed {v : Voice} (h : v.startDelay = keyOnDelay) (ram : Ram) (tick : Tick) :
    v.clock ram tick = ((v.restarted ram tick).countDown.hushed, false) := by
  have hd : (v.restarted ram tick).countDown.startDelay = 4 := by
    unfold countDown
    rw [startDelay_restarted, h]
    rfl
  have hw : (v.restarted ram tick).countDown.warmUp ram tick = ((v.restarted ram tick).countDown, false) := by
    refine if_neg ?_
    rw [hd]
    decide
  rw [clock_of_starting v ram tick (by rw [h]; decide), startUp_parts, hw]

theorem clock_of_off (h : ¬ 0 < v.startDelay) (ho : v.envelope.stage = .off) :
    v.clock ram tick = ({ v with output := 0 }.showReadback, false) := by
  unfold clock
  rw [if_neg h, if_pos ho]

theorem clock_of_playing (h : ¬ 0 < v.startDelay) (ho : v.envelope.stage ≠ .off) :
    v.clock ram tick = v.play ram tick := by
  unfold clock
  rw [if_neg h, if_neg ho]

theorem decode_eq :
    v.decode ram directory =
      (if (v.stream.decodeGroup ram (v.loopAddress ram directory)).2 = .finished then
          (v.withStream (v.stream.decodeGroup ram (v.loopAddress ram directory)).1).stop
        else v.withStream (v.stream.decodeGroup ram (v.loopAddress ram directory)).1,
        decide ((v.stream.decodeGroup ram (v.loopAddress ram directory)).2 = .looped ∨
          (v.stream.decodeGroup ram (v.loopAddress ram directory)).2 = .ended)) :=
  decode_of rfl

theorem output_refill : (v.refill ram directory).1.output = v.output := by
  unfold refill
  split
  · rw [decode_eq]
    split <;> rfl
  · rfl

theorem output_move (modulator : Option Int16) : (v.move modulator).output = v.output := by
  unfold move
  split <;> rfl

theorem output_play :
    (v.play ram tick).1.output =
      Int16.ofInt (Sample.even (tick.noise.getD v.interpolated * v.envelope.level.toInt / 2048)) := by
  rw [play_eq, advance_eq]
  change (((v.sounded tick).refill ram tick.directory).1.move tick.modulator).output = _
  rw [output_move, output_refill]
  rfl

theorem envelope_move (modulator : Option Int16) : (v.move modulator).envelope = v.envelope := by
  unfold move
  split <;> rfl

theorem interpolated_bounds : -32768 ≤ v.interpolated ∧ v.interpolated ≤ 32767 := by
  unfold interpolated Interpolation.interpolate Sample.even Sample.clamp
  dsimp only
  omega

def Tick.Valid (tick : Tick) : Prop := ∀ noise ∈ tick.noise, -32768 ≤ noise ∧ noise ≤ 32767

theorem Tick.Valid.sample_bounds {tick : Tick} (h : tick.Valid) :
    -32768 ≤ tick.noise.getD v.interpolated ∧ tick.noise.getD v.interpolated ≤ 32767 := by
  unfold Tick.Valid at h
  cases hn : tick.noise with
  | none => exact v.interpolated_bounds
  | some noise => exact h noise hn

theorem step_nonneg (modulator : Option Int16) : 0 ≤ v.step modulator := by
  unfold step
  generalize (v.pitch &&& 0x3FFF).toNat = pitch
  cases modulator with
  | none => exact Int.natCast_nonneg pitch
  | some m =>
    have hm : -1024 ≤ m.toInt / 32 := by
      have := m.le_toInt
      omega
    have hp : -1024 * (pitch : Int) ≤ m.toInt / 32 * pitch :=
      Int.mul_le_mul_of_nonneg_right hm (Int.natCast_nonneg pitch)
    dsimp only
    omega

theorem stage_writeRegister (data : UInt8) (r : VoiceRegister) :
    (v.writeRegister data r).envelope.stage = v.envelope.stage := by
  cases r <;> rfl

variable {v tick}

theorem groupLength_le_iff : groupLength ≤ v.counter ↔ 0x4000 ≤ v.counter.toNat := UInt16.le_iff_toNat_le

theorem toNat_nextCounter (modulator : Option Int16) :
    ((v.nextCounter modulator).toNat : Int) = min 0x7FFF (v.counter.toNat % 0x4000 + v.step modulator) := by
  have hs := v.step_nonneg modulator
  have hm : (v.counter % groupLength).toNat = v.counter.toNat % 0x4000 := UInt16.toNat_mod ..
  have hlt : (min maxCounter (max 0 ((v.counter % groupLength).toNat + v.step modulator))).toNat < 2 ^ 16 := by
    unfold maxCounter
    omega
  unfold nextCounter
  rw [UInt16.toNat_ofNat_of_lt' hlt, hm]
  unfold maxCounter
  omega

theorem move_of_on (h : v.envelope.stage ≠ .off) (modulator : Option Int16) :
    v.move modulator = { v with counter := v.nextCounter modulator } := if_neg h

theorem output_clock (hd : v.startDelay = 0) (ho : v.envelope.stage ≠ .off) (hn : tick.noise = none) (ram : Ram) :
    (v.clock ram tick).1.output = Int16.ofInt (Sample.even (v.interpolated * v.envelope.level.toInt / 2048)) := by
  rw [clock_of_playing v ram tick (not_starting hd) ho, output_play, hn, Option.getD_none]

theorem off_decode (h : v.envelope.stage = .off) (ram : Ram) (directory : UInt16) :
    (v.decode ram directory).1.envelope.stage = .off := by
  rw [decode_eq]
  split
  · rfl
  · exact h

theorem off_clock (h : v.envelope.stage = .off) (ram : Ram) (tick : Tick) :
    (v.clock ram tick).1.envelope.stage = .off := by
  by_cases hd : 0 < v.startDelay
  · have hr : (v.restarted ram tick).countDown.envelope.stage = .off := by
      unfold restarted
      split <;> exact h
    rw [clock_of_starting v ram tick hd, startUp_parts]
    generalize (v.restarted ram tick).countDown = w at hr
    change (w.warmUp ram tick).1.envelope.stage = .off
    unfold warmUp
    split
    · exact off_decode hr ram tick.directory
    · exact hr
  · rw [clock_of_off v ram tick hd h]
    exact h

end Voice

end SoundUnit
