import SoundUnit.Sample

namespace SoundUnit

def Frame.peak (f : Frame) : Nat := max f.left.toInt.natAbs f.right.toInt.natAbs

def peak (frames : Array Frame) : Nat := frames.foldl (fun highest f ↦ max highest f.peak) 0

/-- The last `capacity` measurements, oldest first. -/
structure Meter where
  capacity : Nat
  values : List Nat := []

namespace Meter

def add (m : Meter) (value : Nat) : Meter :=
  let values := m.values ++ [value]
  { m with values := values.drop (values.length - m.capacity) }

def average (m : Meter) : Nat := m.values.foldl (· + ·) 0 / m.values.length

end Meter

end SoundUnit
