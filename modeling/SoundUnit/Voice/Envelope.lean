import SoundUnit.Dsp.Rate

namespace SoundUnit

inductive Stage where
  | attack
  | decay
  | sustain
  | release
  | off
deriving DecidableEq

inductive GainMode where
  | direct (level : Nat)
  | linearDecrease
  | exponentialDecrease
  | linearIncrease
  | bentIncrease
deriving DecidableEq

/-- A candidate for the next level is computed for every sample, but it becomes the level only on the samples at which
the rate of the current stage fires. The stage follows the candidate. -/
structure Envelope where
  adsr : UInt16 := 0
  gain : UInt8 := 0
  stage : Stage := .off
  level : Int16 := 0
  /-- The last candidate, before it was brought into range. -/
  hidden : Int32 := 0
deriving DecidableEq

namespace Envelope

def maxLevel : Int := 0x7FF

def usesAdsr (e : Envelope) : Bool := e.adsr &&& 0x80 ≠ 0

def attackRate (e : Envelope) : Rate := Fin.ofNat 32 ((e.adsr &&& 0xF).toNat * 2 + 1)

def decayRate (e : Envelope) : Rate := Fin.ofNat 32 (16 + (e.adsr >>> 4 &&& 7).toNat * 2)

def sustainRate (e : Envelope) : Rate := Fin.ofNat 32 (e.adsr >>> 8).toNat

def gainMode (e : Envelope) : GainMode :=
  if e.gain < 0x80 then .direct e.gain.toNat
  else if e.gain < 0xA0 then .linearDecrease
  else if e.gain < 0xC0 then .exponentialDecrease
  else if e.gain < 0xE0 then .linearIncrease
  else .bentIncrease

def gainRate (e : Envelope) : Rate := if e.gain < 0x80 then 31 else Fin.ofNat 32 e.gain.toNat

/-- The decay ends when the candidate, in units of 256, is this number. -/
def sustainLevel (e : Envelope) : Nat :=
  if e.usesAdsr then (e.adsr >>> 13).toNat else (e.gain >>> 5).toNat

def exponentialDecrease (level : Int) : Int := level - 1 - (level - 1) / 256

def candidate (e : Envelope) : Int × Rate :=
  let level := e.level.toInt
  if e.usesAdsr then
    match e.stage with
    | .attack => (level + if e.attackRate < 31 then 0x20 else 0x400, e.attackRate)
    | .decay => (exponentialDecrease level, e.decayRate)
    | _ => (exponentialDecrease level, e.sustainRate)
  else
    (match e.gainMode with
      | .direct n => n * 16
      | .linearDecrease => level - 0x20
      | .exponentialDecrease => exponentialDecrease level
      | .linearIncrease => level + 0x20
      | .bentIncrease => level + if e.hidden < 0 ∨ 0x600 ≤ e.hidden then 8 else 0x20,
      e.gainRate)

/-- One sample of a release: the level falls by 8 and the envelope is off when it reaches zero. -/
def release (e : Envelope) : Envelope :=
  let level := max (e.level.toInt - 8) 0
  { e with level := Int16.ofInt level, stage := if level = 0 then .off else e.stage }

def nextStage (e : Envelope) (candidate : Int) : Stage :=
  match e.stage with
  | .attack => if candidate < 0 ∨ maxLevel < candidate then .decay else .attack
  | .decay => if candidate / 256 = e.sustainLevel then .sustain else .decay
  | stage => stage

def clock (e : Envelope) (counter : UInt16) : Envelope :=
  match e.stage with
  | .off => e
  | .release => e.release
  | _ =>
    let (next, rate) := e.candidate
    { e with
      stage := e.nextStage next
      hidden := Int32.ofInt next
      level := if rate.fires counter then Int16.ofInt (min maxLevel (max 0 next)) else e.level }

def keyOn (e : Envelope) : Envelope := { e with stage := .attack, level := 0, hidden := 0 }

def keyOff (e : Envelope) : Envelope := { e with stage := if e.stage = .off then .off else .release }

def stop (e : Envelope) : Envelope := { e with stage := .off, level := 0 }

def hold (e : Envelope) : Envelope := { e with level := 0 }

def Valid (e : Envelope) : Prop := 0 ≤ e.level ∧ e.level ≤ 0x7FF

instance (e : Envelope) : Decidable e.Valid := inferInstanceAs (Decidable (_ ∧ _))

end Envelope

end SoundUnit
