import SoundUnit.Machine.Basic
import SoundUnit.Output.Filter
import SoundUnit.Output.Meter

namespace SoundUnit

/-- A machine runs in updates of a sixtieth of a second, and the average peak of its filtered sound is reported after
each second. -/
structure Renderer where
  machine : Machine
  filter : OutputFilter := {}
  meter : Meter := { capacity := 60 }

namespace Renderer

def updatesPerSecond : Nat := 60

def updateClocks : Nat := clockRate / updatesPerSecond

def seconds : Nat := 5

def update (r : Renderer) : Renderer :=
  let (frames, machine) := (r.machine.run updateClocks).read sampleRate
  let (frames, filter) := r.filter.processAll frames
  { machine, filter, meter := r.meter.add (peak frames) }

def updates : Nat → Renderer → Renderer
  | 0, r => r
  | n + 1, r => updates n r.update

def reports (number : Nat) (r : Renderer) : Nat → List String
  | 0 => []
  | n + 1 =>
    let r := updates updatesPerSecond r
    s!"{number}s: average peak {r.meter.average}" :: reports (number + 1) r n

end Renderer

def Machine.render (m : Machine) : List String := Renderer.reports 1 { machine := m } Renderer.seconds

/-- What is said when the images are refused. -/
def Failure.refusal (f : Failure) : String := s!"Couldn't initialize: {f.message}"

end SoundUnit
