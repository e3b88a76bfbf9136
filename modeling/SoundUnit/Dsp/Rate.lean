import SoundUnit.Index

namespace SoundUnit

/-- One of the 32 rates of events. An event is a sample at which the counter plus the phase of the rate is a multiple of
its period; rate 0 never fires. -/
abbrev Rate := Fin 32

namespace Rate

def range : Nat := 30720

/-- Samples from one event to the next. -/
def periods : Vector Nat 32 := #v[
  30721, 2048, 1536, 1280, 1024, 768, 640, 512, 384, 320, 256, 192, 160, 128, 96, 80,
  64, 48, 40, 32, 24, 20, 16, 12, 10, 8, 6, 5, 4, 3, 2, 1]

def phases : Vector Nat 32 := #v[
  1, 0, 1040, 536, 0, 1040, 536, 0, 1040, 536, 0, 1040, 536, 0, 1040, 536,
  0, 1040, 536, 0, 1040, 536, 0, 1040, 536, 0, 1040, 536, 0, 1040, 0, 0]

def fires (rate : Rate) (counter : UInt16) : Bool :=
  (counter.toNat + phases[rate]) % periods[rate] = 0

def nextCounter (counter : UInt16) : UInt16 := if counter = 0 then 30719 else counter - 1

end Rate

end SoundUnit
