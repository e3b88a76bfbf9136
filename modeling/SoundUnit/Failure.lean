import SoundUnit.Text.Radix

namespace SoundUnit

inductive SnapshotFault where
  | endOfData
  | notSnapshot
  | version (n : Nat)
  | badBool (n : Nat)
  | badTag (n : Nat)
  | badStage (n : Nat)
  | ramSize
  | bootRomSize
  | timers
  | dsp
  | sampleClock
deriving DecidableEq

def SnapshotFault.message : SnapshotFault → String
  | .endOfData => "io error: unexpected end of file"
  | .notSnapshot => "not an APU snapshot"
  | .version n => s!"version {n}, expected 1"
  | .badBool n => s!"invalid u8 while decoding bool, expected 0 or 1, found {n}"
  | .badTag n => s!"tag for enum is not valid, found {n}"
  | .badStage n => s!"invalid value: integer `{n}`, expected variant index 0 <= i < 5"
  | .ramSize => "RAM size mismatch"
  | .bootRomSize => "boot ROM size mismatch"
  | .timers => "timer state out of range"
  | .dsp => "DSP state out of range"
  | .sampleClock => "sample clock mismatch"

inductive Failure where
  | imageSize (actual expected : Nat)
  /-- The boot program would not start inside itself. -/
  | resetVector (vector : UInt16)
  | snapshot (fault : SnapshotFault)
deriving DecidableEq

def Failure.message : Failure → String
  | .imageSize actual expected => s!"image is {actual} bytes, expected {expected}"
  | .resetVector vector =>
    s!"invalid image: reset vector {Radix.hex 4 vector.toNat} is outside of the boot ROM"
  | .snapshot fault => s!"incompatible snapshot: {fault.message}"

end SoundUnit
