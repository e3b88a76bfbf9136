import SoundUnit.Sample
import SoundUnit.Word

namespace SoundUnit

structure BlockHeader where
  /-- The exponent of the scale; 13 and above are not powers of two but leave only the sign. -/
  range : Fin 16
  filter : Fin 4
  loop : Bool
  last : Bool

namespace BlockHeader

def ofByte (b : UInt8) : BlockHeader where
  range := Fin.ofNat 16 (b >>> 4).toNat
  filter := Fin.ofNat 4 (b >>> 2).toNat
  loop := Bit.test b 1
  last := Bit.test b 0

/-- A nybble, which counts as signed, scaled to half the amplitude of a sample. -/
def scale (h : BlockHeader) (nybble : Fin 16) : Int :=
  let signed : Int := if nybble.val < 8 then nybble.val else nybble.val - 16
  if h.range.val ≤ 12 then (signed <<< h.range.val) / 2
  else if signed < 0 then -2048
  else 0

def predict (h : BlockHeader) (last older : Int) : Int :=
  let older := older / 2
  match h.filter with
  | 0 => 0
  | 1 => last / 2 + -last / 32
  | 2 => last - older + older / 16 + last * -3 / 64
  | 3 => last - older + last * -13 / 128 + older * 3 / 16

/-- The sample that a nybble stands for after the last two samples. Samples are even. -/
def sample (h : BlockHeader) (nybble : Fin 16) (last older : Int16) : Int16 :=
  Int16.ofInt (2 * Sample.clamp (h.scale nybble + h.predict last.toInt older.toInt))

end BlockHeader

namespace Block

def size : UInt16 := 9

def nybbles (first second : UInt8) : List (Fin 16) :=
  [Fin.ofNat 16 (first >>> 4).toNat, Fin.ofNat 16 first.toNat, Fin.ofNat 16 (second >>> 4).toNat,
    Fin.ofNat 16 second.toNat]

end Block

end SoundUnit
