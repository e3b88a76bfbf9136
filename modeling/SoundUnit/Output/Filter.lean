import SoundUnit.Sample

namespace SoundUnit

namespace OutputFilter

structure Channel where
  /-- Three times the last input. -/
  previous : Int := 0
  /-- The last output of the low pass. -/
  lowPass : Int := 0
  integrator : Int32 := 0

def unitGain : Int32 := 256

/-- Bass settings: the lower one is, the more bass is taken away. -/
def noBass : Nat := 0

def normalBass : Nat := 8

def maxBass : Nat := 31

/-- The output comes from the integrator as it was before the input reached it. -/
def Channel.process (c : Channel) (gain : Int32) (bass : Nat) (input : Int16) : Int16 × Channel :=
  let lowPass := input.toInt + c.previous
  let integrator := c.integrator.toInt
  (Int16.ofInt (Sample.clamp (integrator / 1024)),
    { previous := 3 * input.toInt
      lowPass
      integrator := Int32.ofInt (integrator + (lowPass - c.lowPass) * gain.toInt - integrator >>> bass) })

end OutputFilter

open OutputFilter

/-- An approximation of the analogue output stage: a low pass of two points, then a leaky integrator that blocks
constant input and wraps at 32 bits. -/
structure OutputFilter where
  gain : Int32 := unitGain
  bass : Nat := normalBass
  left : Channel := {}
  right : Channel := {}

namespace OutputFilter

def setGain (f : OutputFilter) (gain : Int32) : OutputFilter := { f with gain }

def setBass (f : OutputFilter) (bass : Nat) : OutputFilter := { f with bass := min bass maxBass }

def clear (f : OutputFilter) : OutputFilter := { f with left := {}, right := {} }

def process (f : OutputFilter) (frame : Frame) : Frame × OutputFilter :=
  let (leftOut, left) := f.left.process f.gain f.bass frame.left
  let (rightOut, right) := f.right.process f.gain f.bass frame.right
  (⟨leftOut, rightOut⟩, { f with left, right })

def processAll (f : OutputFilter) (frames : Array Frame) : Array Frame × OutputFilter :=
  frames.foldl
    (fun (out, f) frame ↦
      let (frame, f) := f.process frame
      (out.push frame, f))
    (#[], f)

end OutputFilter

end SoundUnit
