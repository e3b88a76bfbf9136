import SoundUnit.Memory.Ram
import SoundUnit.Sample
import SoundUnit.Word

namespace SoundUnit

/-- A delay line of frames in memory and a filter of eight taps over what comes out of it. The line wraps at the end
of the address space; its length is read from the delay register only at its start. -/
structure Echo where
  volume : Stereo Int8 := ⟨0, 0⟩
  feedback : Int8 := 0
  /-- Which voices go into the echo. -/
  enable : UInt8 := 0
  startPage : UInt8 := 0
  delay : UInt8 := 0
  taps : Vector Int8 8 := Vector.replicate 8 0
  /-- Bytes of the line on its current round. -/
  length : UInt16 := 0
  offset : UInt16 := 0
  /-- The last eight frames out of the line, halved. -/
  history : Vector Frame 8 := Vector.replicate 8 Frame.silence
  newest : Nat := 0
deriving DecidableEq

namespace Echo

def frameBytes : UInt16 := 4

/-- The length of the line that the delay register asks for. -/
def delayLength (e : Echo) : UInt16 := (e.delay &&& 0xF).toUInt16 * 0x800

def start (e : Echo) : UInt16 := word e.startPage 0

def address (e : Echo) : UInt16 := e.start + e.offset

def readSample (ram : Ram) (addr : UInt16) : Int :=
  (word (ram.read (addr + 1)) (ram.read addr)).toInt16.toInt

def readFrame (ram : Ram) (addr : UInt16) : Stereo Int := ⟨readSample ram addr, readSample ram (addr + 2)⟩

def writeSample (ram : Ram) (addr : UInt16) (sample : Int) : Ram :=
  let w := (Int16.ofInt sample).toUInt16
  (ram.write addr (Word.low w)).write (addr + 1) (Word.high w)

def writeFrame (ram : Ram) (addr : UInt16) (frame : Stereo Int) : Ram :=
  writeSample (writeSample ram addr frame.left) (addr + 2) frame.right

def receive (e : Echo) (ram : Ram) : Echo :=
  let newest := Fin.ofNat 8 (e.newest + 1)
  { e with
    newest
    history := e.history.setIfInBounds newest ((readFrame ram e.address).map fun x ↦ Int16.ofInt (x / 2)) }

/-- The frame that tap `i` looks at; tap 7 is at the newest one. -/
def tapFrame (e : Echo) (i : Fin 8) : Frame := e.history.get (Fin.ofNat 8 (e.newest + 1 + i))

def tap (e : Echo) (side : Frame → Int16) (i : Fin 8) : Int :=
  (side (e.tapFrame i)).toInt * (e.taps.get i).toInt / 64

/-- The filter on one side. The first seven taps are summed in 16 bits, so that sum can wrap; adding the last one
saturates. -/
def filterSide (e : Echo) (side : Frame → Int16) : Int :=
  let early := e.tap side 0 + e.tap side 1 + e.tap side 2 + e.tap side 3 + e.tap side 4 + e.tap side 5 + e.tap side 6
  Sample.even (Sample.clamp (Sample.wrap early + Sample.wrap (e.tap side 7)))

def filter (e : Echo) : Stereo Int := ⟨e.filterSide Stereo.left, e.filterSide Stereo.right⟩

/-- A sample scaled by a volume register, in 16 bits. -/
def amplify (sample : Int) (volume : Int8) : Int := Sample.wrap (sample * volume.toInt / 128)

/-- The frame that goes into the line: the voices and the feedback of the filter. -/
def feed (e : Echo) (input filtered : Stereo Int) : Stereo Int :=
  input.zipWith (fun x y ↦ Sample.even (Sample.clamp (x + amplify y e.feedback))) filtered

def advance (e : Echo) : Echo :=
  let length := if e.offset = 0 then e.delayLength else e.length
  let offset := e.offset + frameBytes
  { e with length, offset := if length ≤ offset then 0 else offset }

def send (e : Echo) (ram : Ram) (input filtered : Stereo Int) (enabled : Bool) : Echo × Ram :=
  (e.advance, if enabled then writeFrame ram e.address (e.feed input filtered) else ram)

def clearLength (e : Echo) : Nat := max e.delayLength.toNat frameBytes.toNat

/-- Silences the line that the delay register asks for and what the filter remembers. -/
def clear (e : Echo) (ram : Ram) : Echo × Ram :=
  ({ e with history := Vector.replicate 8 Frame.silence, offset := 0 }, ram.clear e.start e.clearLength)

def maxLength : UInt16 := 0x7800

def Valid (e : Echo) : Prop :=
  e.offset % frameBytes = 0 ∧ e.offset < maxLength ∧ e.length % frameBytes = 0 ∧ e.length ≤ maxLength ∧
    e.newest < 8

instance (e : Echo) : Decidable e.Valid := inferInstanceAs (Decidable (_ ∧ _ ∧ _ ∧ _ ∧ _))

end Echo

end SoundUnit
