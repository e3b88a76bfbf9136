import SoundUnit.Proofs.Checked.Stream
import SoundUnit.Proofs.Voice.Equations

namespace SoundUnit

open Checked

namespace Rate

def fires? (rate : Rate) (counter : UInt16) : Option Bool := do
  let phase ← phases[rate.val]?
  let period ← periods[rate.val]?
  let sum ← below longBound (counter.toNat + phase)
  let r ← remainder sum period
  return decide (r = 0)

theorem tables_bounds : ∀ rate : Fin 32, phases[rate] ≤ 1040 ∧ periods[rate] ≠ 0 := by decide

theorem fires?_eq (rate : Rate) (counter : UInt16) : rate.fires? counter = some (rate.fires counter) := by
  obtain ⟨hp, hn⟩ := tables_bounds rate
  have hc := counter.toNat_lt
  simp only [Fin.getElem_fin] at hp hn
  unfold fires? fires longBound
  rw [Vector.getElem?_eq_getElem rate.isLt, Vector.getElem?_eq_getElem rate.isLt]
  simp only [Option.bind_eq_bind, Option.bind_some]
  rw [below_of (by omega), Option.bind_some, remainder_of hn]
  rfl

end Rate

namespace Envelope

def attackRate? (e : Envelope) : Option Rate := do
  let doubled ← below byteBound ((e.adsr &&& 0xF).toNat * 2)
  let rate ← below byteBound (doubled + 1)
  return Fin.ofNat 32 rate

def decayRate? (e : Envelope) : Option Rate := do
  let doubled ← below byteBound ((e.adsr >>> 4 &&& 7).toNat * 2)
  let rate ← below byteBound (16 + doubled)
  return Fin.ofNat 32 rate

def exponentialDecrease? (level : Int) : Option Int := do
  let x ← long (level - 1)
  long (x - x / 256)

def gain? (e : Envelope) (level : Int) : Option Int :=
  match e.gainMode with
  | .direct n => long (n * 16)
  | .linearDecrease => long (level - 0x20)
  | .exponentialDecrease => exponentialDecrease? level
  | .linearIncrease => long (level + 0x20)
  | .bentIncrease => long (level + if e.hidden < 0 ∨ 0x600 ≤ e.hidden then 8 else 0x20)

def candidate? (e : Envelope) : Option (Int × Rate) :=
  let level := e.level.toInt
  if e.usesAdsr then
    match e.stage with
    | .attack => do
      let rate ← e.attackRate?
      let next ← long (level + if rate < 31 then 0x20 else 0x400)
      return (next, rate)
    | .decay => do
      let next ← exponentialDecrease? level
      let rate ← e.decayRate?
      return (next, rate)
    | _ => do
      let next ← exponentialDecrease? level
      return (next, e.sustainRate)
  else do
    let next ← e.gain? level
    return (next, e.gainRate)

def clock? (e : Envelope) (counter : UInt16) : Option Envelope :=
  match e.stage with
  | .off => some e
  | .release => do
    let lower ← long (e.level.toInt - 8)
    let level := max lower 0
    return { e with level := Int16.ofInt level, stage := if level = 0 then .off else e.stage }
  | _ => do
    let (next, rate) ← e.candidate?
    let fires ← rate.fires? counter
    return { e with
      stage := e.nextStage next
      hidden := Int32.ofInt next
      level := if fires then Int16.ofInt (min maxLevel (max 0 next)) else e.level }

variable (e : Envelope)

theorem attackRate?_eq : e.attackRate? = some e.attackRate := by
  have h : (e.adsr &&& 0xF).toNat ≤ 15 := by
    rw [UInt16.toNat_and]
    exact Nat.and_le_right
  unfold attackRate? byteBound
  simp (disch := omega) only [below_of, Option.bind_eq_bind, Option.bind_some]
  rfl

theorem decayRate?_eq : e.decayRate? = some e.decayRate := by
  have h : (e.adsr >>> 4 &&& 7).toNat ≤ 7 := by
    rw [UInt16.toNat_and]
    exact Nat.and_le_right
  unfold decayRate? byteBound
  simp (disch := omega) only [below_of, Option.bind_eq_bind, Option.bind_some]
  rfl

theorem exponentialDecrease?_eq {level : Int} (h : 0 ≤ level ∧ level ≤ 0x7FF) :
    exponentialDecrease? level = some (exponentialDecrease level) := by
  unfold exponentialDecrease? exponentialDecrease
  simp (disch := omega) only [long_of, Option.bind_eq_bind, Option.bind_some]

def gained (e : Envelope) (level : Int) : Int :=
  match e.gainMode with
  | .direct n => n * 16
  | .linearDecrease => level - 0x20
  | .exponentialDecrease => exponentialDecrease level
  | .linearIncrease => level + 0x20
  | .bentIncrease => level + if e.hidden < 0 ∨ 0x600 ≤ e.hidden then 8 else 0x20

theorem direct_le {n : Nat} (h : e.gainMode = .direct n) : n < 128 := by
  unfold gainMode at h
  repeat' split at h
  case isTrue hlt =>
    cases h
    exact hlt
  all_goals cases h

theorem gain?_eq {level : Int} (h : 0 ≤ level ∧ level ≤ 0x7FF) : e.gain? level = some (e.gained level) := by
  unfold gain? gained
  cases hm : e.gainMode with
  | direct n =>
    have hn := e.direct_le hm
    exact long_of (by omega)
  | linearDecrease => exact long_of (by omega)
  | exponentialDecrease => exact exponentialDecrease?_eq h
  | linearIncrease => exact long_of (by omega)
  | bentIncrease =>
    refine long_of ?_
    split <;> omega

theorem candidate?_eq (h : e.Valid) : e.candidate? = some e.candidate := by
  have hl := valid_iff.1 h
  have hx := exponentialDecrease?_eq hl
  unfold candidate? candidate
  by_cases ha : e.usesAdsr
  · rw [if_pos ha, if_pos ha]
    cases e.stage
    case attack =>
      have hs : long (e.level.toInt + if e.attackRate < 31 then 0x20 else 0x400) =
          some (e.level.toInt + if e.attackRate < 31 then 0x20 else 0x400) := by
        refine long_of ?_
        split <;> omega
      simp only [attackRate?_eq, hs, Option.bind_eq_bind, Option.bind_some]
      rfl
    case decay =>
      simp only [hx, decayRate?_eq, Option.bind_eq_bind, Option.bind_some]
      rfl
    all_goals
      simp only [hx, Option.bind_eq_bind, Option.bind_some]
      rfl
  · rw [if_neg ha, if_neg ha, gain?_eq e hl]
    rfl

theorem clock?_eq (h : e.Valid) (counter : UInt16) : e.clock? counter = some (e.clock counter) := by
  have hl := valid_iff.1 h
  have hc := e.candidate?_eq h
  unfold clock? clock
  cases hs : e.stage
  case off => rfl
  case release =>
    unfold release
    dsimp only
    rw [long_of (by omega), hs]
    rfl
  all_goals
    dsimp only
    rw [hc]
    simp only [Rate.fires?_eq, Option.bind_eq_bind, Option.bind_some]
    rfl

end Envelope

namespace Voice

def readAddress? (ram : Ram) (addr : UInt16) : Option UInt16 := do
  let high ← ram.read? (addr + 1)
  let low ← ram.read? addr
  return word high low

def directoryEntry? (v : Voice) (directory : UInt16) : Option UInt16 := do
  let offset ← below wordBound (v.source.toNat * 4)
  return directory + UInt16.ofNat offset

def decode? (v : Voice) (ram : Ram) (directory : UInt16) : Option (Voice × Bool) := do
  let entry ← v.directoryEntry? directory
  let loop ← readAddress? ram (entry + 2)
  let (stream, event) ← v.stream.decodeGroup? ram loop
  let v := { v with stream }
  return match event with
    | .none => (v, false)
    | .looped => (v, true)
    | .ended => (v, true)
    | .finished => (v.stop, false)

def restarted? (v : Voice) (ram : Ram) (tick : Tick) : Option Voice :=
  if v.startDelay = keyOnDelay then do
    let entry ← v.directoryEntry? tick.directory
    let start ← readAddress? ram entry
    return { v with stream := v.stream.restart start, counter := 0 }
  else some v

def countDown? (v : Voice) : Option Voice := do
  let delay ← difference v.startDelay.toNat 1
  return { v with startDelay := UInt8.ofNat delay }

def warmUp? (v : Voice) (ram : Ram) (tick : Tick) : Option (Voice × Bool) :=
  if 1 ≤ v.startDelay ∧ v.startDelay ≤ 3 then v.decode? ram tick.directory else some (v, false)

def startUp? (v : Voice) (ram : Ram) (tick : Tick) : Option (Voice × Bool) := do
  let v ← v.restarted? ram tick
  let v ← v.countDown?
  let (v, ended) ← v.warmUp? ram tick
  return (v.hushed, ended)

def step? (v : Voice) (modulator : Option Int16) : Option Int :=
  let pitch : Int := (v.pitch &&& 0x3FFF).toNat
  match modulator with
  | none => some pitch
  | some m => do
    let product ← long (m.toInt / 32 * pitch)
    long (pitch + product / 1024)

def refill? (v : Voice) (ram : Ram) (directory : UInt16) : Option (Voice × Bool) :=
  if groupLength ≤ v.counter then v.decode? ram directory else some (v, false)

def move? (v : Voice) (modulator : Option Int16) : Option Voice :=
  if v.envelope.stage = .off then some v
  else do
    let step ← v.step? modulator
    let position ← long ((v.counter % groupLength).toNat + step)
    return { v with counter := UInt16.ofNat (min maxCounter (max 0 position)).toNat }

def advance? (v : Voice) (ram : Ram) (tick : Tick) : Option (Voice × Bool) := do
  let (v, ended) ← v.refill? ram tick.directory
  let v ← v.move? tick.modulator
  return (v, ended)

def interpolated? (v : Voice) : Option Int := do
  let n := v.counter.toNat / 4096
  let a ← v.stream.get? n
  let b ← v.stream.get? (n + 1)
  let c ← v.stream.get? (n + 2)
  let d ← v.stream.get? (n + 3)
  Interpolation.interpolate? (v.counter.toNat / 16 % 256) a.toInt b.toInt c.toInt d.toInt

def sample? (v : Voice) : Option Int → Option Int
  | some noise => some noise
  | none => v.interpolated?

def play? (v : Voice) (ram : Ram) (tick : Tick) : Option (Voice × Bool) := do
  let sample ← v.sample? tick.noise
  let product ← long (sample * v.envelope.level.toInt)
  let envelope ← v.envelope.clock? tick.counter
  let v := { v with output := Int16.ofInt (Sample.even (product / 2048)), envelope }
  let (v, ended) ← v.advance? ram tick
  return (v.showReadback, ended)

def clock? (v : Voice) (ram : Ram) (tick : Tick) : Option (Voice × Bool) :=
  if 0 < v.startDelay then v.startUp? ram tick
  else if v.envelope.stage = .off then some ({ v with output := 0 }.showReadback, false)
  else v.play? ram tick

variable {v : Voice}

theorem readAddress?_eq (ram : Ram) (addr : UInt16) : readAddress? ram addr = some (readAddress ram addr) := by
  unfold readAddress?
  simp only [Ram.read?_eq, Option.bind_eq_bind, Option.bind_some]
  rfl

theorem directoryEntry?_eq (v : Voice) (directory : UInt16) :
    v.directoryEntry? directory = some (v.directoryEntry directory) := by
  have hs := v.source.toNat_lt
  have hm : UInt16.ofNat (v.source.toNat * 4) = v.source.toUInt16 * 4 := by
    rw [← UInt16.toNat_inj, UInt16.toNat_mul, UInt8.toNat_toUInt16, UInt16.toNat_ofNat']
    rfl
  unfold directoryEntry? wordBound
  rw [below_of (by omega)]
  simp only [hm, Option.bind_eq_bind, Option.bind_some]
  rfl

theorem decode?_eq (h : v.stream.Valid) (ram : Ram) (directory : UInt16) :
    v.decode? ram directory = some (v.decode ram directory) := by
  have hg := SampleStream.decodeGroup?_eq h ram (readAddress ram (v.directoryEntry directory + 2))
  unfold decode? decode
  simp only [directoryEntry?_eq, readAddress?_eq, hg, Option.bind_eq_bind, Option.bind_some]
  rfl

theorem toNat_pitch_le (v : Voice) : (v.pitch &&& 0x3FFF).toNat ≤ 16383 := by
  rw [UInt16.toNat_and]
  exact Nat.and_le_right

theorem modulated_bounds (m : Int16) {pitch : Nat} (h : pitch ≤ 16383) :
    -16776192 ≤ m.toInt / 32 * pitch ∧ m.toInt / 32 * pitch ≤ 16776192 := by
  have hm := int16_bounds m
  exact mul_bounds (a := 1024) (b := 16383) (by omega) (by omega)

theorem step?_eq (v : Voice) (modulator : Option Int16) : v.step? modulator = some (v.step modulator) := by
  have hp := v.toNat_pitch_le
  unfold step? step
  cases modulator with
  | none => rfl
  | some m =>
    have hm := modulated_bounds m hp
    simp (disch := omega) only [long_of, Option.bind_eq_bind, Option.bind_some]

theorem step_le (v : Voice) (modulator : Option Int16) : -32768 ≤ v.step modulator ∧ v.step modulator ≤ 32767 := by
  have hp := v.toNat_pitch_le
  unfold step
  cases modulator with
  | none =>
    dsimp only
    omega
  | some m =>
    have hm := modulated_bounds m hp
    dsimp only
    omega

theorem refill?_eq (h : v.stream.Valid) (ram : Ram) (directory : UInt16) :
    v.refill? ram directory = some (v.refill ram directory) := by
  unfold refill? refill
  by_cases hc : groupLength ≤ v.counter
  · rw [if_pos hc, if_pos hc, decode?_eq h]
  · rw [if_neg hc, if_neg hc]

theorem move?_eq (v : Voice) (modulator : Option Int16) : v.move? modulator = some (v.move modulator) := by
  have hs := v.step_le modulator
  have hm : (v.counter % groupLength).toNat < 16384 := by
    rw [UInt16.toNat_mod]
    exact Nat.mod_lt _ (by decide)
  unfold move? move
  by_cases ho : v.envelope.stage = .off
  · rw [if_pos ho, if_pos ho]
  · rw [if_neg ho, if_neg ho, step?_eq]
    simp only [Option.bind_eq_bind, Option.bind_some]
    rw [long_of (by omega)]
    rfl

theorem advance?_eq (h : v.stream.Valid) (ram : Ram) (tick : Tick) :
    v.advance? ram tick = some (v.advance ram tick) := by
  unfold advance?
  simp only [advance_eq, refill?_eq h, move?_eq, Option.bind_eq_bind, Option.bind_some]
  rfl

theorem interpolated?_eq (hc : v.counter.toNat ≤ maxCounter) (hs : v.stream.Valid) :
    v.interpolated? = some v.interpolated := by
  unfold maxCounter at hc
  have hg (i : Nat) (hi : i ≤ 3) := SampleStream.get?_eq hs.1 (n := v.counter.toNat / 4096 + i) (by omega)
  have h₀ : v.stream.get? (v.counter.toNat / 4096) = some (v.stream.get (v.counter.toNat / 4096)) := hg 0 (by decide)
  unfold interpolated? interpolated
  simp only [h₀, hg 1 (by decide), hg 2 (by decide), hg 3 (by decide), Option.bind_eq_bind, Option.bind_some]
  exact Interpolation.interpolate?_eq (Fin.ofNat 256 (v.counter.toNat / 16)) (int16_bounds _) (int16_bounds _)
    (int16_bounds _) (int16_bounds _)

theorem sample?_eq (hc : v.counter.toNat ≤ maxCounter) (hs : v.stream.Valid) (noise : Option Int) :
    v.sample? noise = some (noise.getD v.interpolated) := by
  cases noise with
  | none => exact interpolated?_eq hc hs
  | some noise => rfl

theorem play?_eq (h : v.Valid) (ram : Ram) {tick : Tick} (ht : tick.Valid) :
    v.play? ram tick = some (v.play ram tick) := by
  obtain ⟨-, hc, he, hs⟩ := h
  have hl := Envelope.valid_iff.1 he
  have hb := ht.sample_bounds v
  have hp : -67076096 ≤ tick.noise.getD v.interpolated * v.envelope.level.toInt ∧
      tick.noise.getD v.interpolated * v.envelope.level.toInt ≤ 67076096 :=
    mul_bounds (a := 32768) (b := 2047) (by omega) (by omega)
  have ha := advance?_eq (v := v.sounded tick) hs ram tick
  unfold sounded at ha
  unfold play?
  rw [play_eq, sample?_eq hc hs]
  simp only [Option.bind_eq_bind, Option.bind_some]
  rw [long_of (by omega)]
  simp only [Envelope.clock?_eq _ he, ha, Option.bind_some]
  rfl

theorem countDown?_eq (h : 0 < v.startDelay) : v.countDown? = some v.countDown := by
  have hlt := v.startDelay.toNat_lt
  have hpos : 1 ≤ v.startDelay.toNat := UInt8.lt_iff_toNat_lt.1 h
  have hd : UInt8.ofNat (v.startDelay.toNat - 1) = v.startDelay - 1 := by
    rw [← UInt8.toNat_inj, UInt8.toNat_sub, UInt8.toNat_ofNat']
    change (v.startDelay.toNat - 1) % 256 = (256 - 1 + v.startDelay.toNat) % 256
    omega
  unfold countDown? countDown
  rw [difference_of hpos]
  simp only [hd, Option.bind_eq_bind, Option.bind_some]
  rfl

theorem restarted?_eq (v : Voice) (ram : Ram) (tick : Tick) :
    v.restarted? ram tick = some (v.restarted ram tick) := by
  unfold restarted? restarted
  by_cases h : v.startDelay = keyOnDelay
  · rw [if_pos h, if_pos h]
    simp only [directoryEntry?_eq, readAddress?_eq, Option.bind_eq_bind, Option.bind_some]
    rfl
  · rw [if_neg h, if_neg h]

theorem startUp?_eq (h : v.Valid) (hd : 0 < v.startDelay) (ram : Ram) (tick : Tick) :
    v.startUp? ram tick = some (v.startUp ram tick) := by
  have hr : (v.restarted ram tick).countDown.stream.Valid := (h.restarted ram tick).2.2.2
  have hd' : 0 < (v.restarted ram tick).startDelay := by
    rw [startDelay_restarted]
    exact hd
  have hw : (v.restarted ram tick).countDown.warmUp? ram tick =
      some ((v.restarted ram tick).countDown.warmUp ram tick) := by
    unfold warmUp? warmUp
    split
    · exact decode?_eq hr ram tick.directory
    · rfl
  unfold startUp?
  rw [startUp_parts]
  simp only [restarted?_eq, countDown?_eq hd', hw, Option.bind_eq_bind, Option.bind_some]
  rfl

theorem clock?_eq (h : v.Valid) (ram : Ram) {tick : Tick} (ht : tick.Valid) :
    v.clock? ram tick = some (v.clock ram tick) := by
  unfold clock? clock
  by_cases hd : 0 < v.startDelay
  · rw [if_pos hd, if_pos hd, startUp?_eq h hd]
  · rw [if_neg hd, if_neg hd]
    by_cases ho : v.envelope.stage = .off
    · rw [if_pos ho, if_pos ho]
    · rw [if_neg ho, if_neg ho, play?_eq h ram ht]

end Voice

end SoundUnit
