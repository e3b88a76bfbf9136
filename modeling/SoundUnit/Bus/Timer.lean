namespace SoundUnit

/-- Every period of clocks moves the stage on. When the stage reaches the target it returns to zero and the four-bit
output counts one up. The stage is compared after it has wrapped at eight bits, so a target of zero means 256. -/
structure Timer where
  target : UInt8 := 0
  stage : UInt8 := 0
  output : UInt8 := 0
  enabled : Bool := false
  /-- Clocks from one step of the stage to the next. -/
  period : Nat
  /-- Clocks since the last step of the stage. -/
  elapsed : Nat := 0
deriving DecidableEq

namespace Timer

def step (t : Timer) : Timer :=
  let stage := t.stage + 1
  if stage = t.target then { t with stage := 0, output := (t.output + 1) &&& 0xF } else { t with stage }

def steps : Nat → Timer → Timer
  | 0, t => t
  | n + 1, t => steps n t.step

/-- Lets time pass. A timer that is not enabled stands still. -/
def clock (t : Timer) (clocks : Nat) : Timer :=
  if t.enabled then
    let total := t.elapsed + clocks
    steps (total / t.period) { t with elapsed := total % t.period }
  else t

theorem steps_add (m n : Nat) (t : Timer) : steps (m + n) t = steps n (steps m t) := by
  induction m generalizing t with
  | zero => rw [Nat.zero_add, steps]
  | succ m ih => rw [Nat.succ_add, steps, steps, ih]

/-- Starting a timer that was stopped clears its counters. -/
def setEnabled (t : Timer) (enabled : Bool) : Timer :=
  if enabled && !t.enabled then { t with enabled, stage := 0, output := 0 } else { t with enabled }

def readOutput (t : Timer) : UInt8 × Timer := (t.output, { t with output := 0 })

def Valid (t : Timer) (period : Nat) : Prop :=
  t.period = period ∧ t.elapsed < t.period ∧ t.output ≤ 0xF

instance (t : Timer) (period : Nat) : Decidable (t.Valid period) :=
  inferInstanceAs (Decidable (_ ∧ _ ∧ _))

end Timer

end SoundUnit
