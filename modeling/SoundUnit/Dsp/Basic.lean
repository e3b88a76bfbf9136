import SoundUnit.Dsp.Echo
import SoundUnit.Dsp.Register

namespace SoundUnit

structure Dsp where
  elapsed : Nat := 0
  /-- Samples that have been generated and not yet been taken, oldest first. -/
  frames : Array Frame := #[]
  mainVolume : Stereo Int8 := ⟨0, 0⟩
  /-- Soft reset, mute, echo writes off, and the five bits of the noise rate. -/
  flags : UInt8 := 0xE0
  keyOn : UInt8 := 0
  /-- Voices that are keyed on with the next sample. -/
  pendingKeyOn : UInt8 := 0
  keyOff : UInt8 := 0
  /-- Voices that have come to the end of their sample. -/
  ended : UInt8 := 0
  pitchModulation : UInt8 := 0
  noiseEnable : UInt8 := 0
  directory : UInt8 := 0
  spare : UInt8 := 0
  counter : UInt16 := 0
  noise : UInt16 := 0x4000
  /-- Voices that the host leaves out of the mix. -/
  muted : UInt8 := 0
  echo : Echo := {}
  voices : Vector Voice 8 := Vector.replicate 8 {}

namespace Dsp

def sampleClocks : Nat := 32

def softReset (d : Dsp) : Bool := Bit.test d.flags 7

def silenced (d : Dsp) : Bool := Bit.test d.flags 6

def echoWrites (d : Dsp) : Bool := !Bit.test d.flags 5

def noiseRate (d : Dsp) : Rate := Fin.ofNat 32 d.flags.toNat

def readGlobal (d : Dsp) : GlobalRegister → UInt8
  | .mainVolumeLeft => d.mainVolume.left.toUInt8
  | .mainVolumeRight => d.mainVolume.right.toUInt8
  | .echoVolumeLeft => d.echo.volume.left.toUInt8
  | .echoVolumeRight => d.echo.volume.right.toUInt8
  | .keyOn => d.keyOn
  | .keyOff => d.keyOff
  | .flags => d.flags
  | .ended => d.ended
  | .echoFeedback => d.echo.feedback.toUInt8
  | .spare => d.spare
  | .pitchModulation => d.pitchModulation
  | .noiseEnable => d.noiseEnable
  | .echoEnable => d.echo.enable
  | .directory => d.directory
  | .echoStart => d.echo.startPage
  | .echoDelay => d.echo.delay

def writeGlobal (d : Dsp) (data : UInt8) : GlobalRegister → Dsp
  | .mainVolumeLeft => { d with mainVolume := { d.mainVolume with left := data.toInt8 } }
  | .mainVolumeRight => { d with mainVolume := { d.mainVolume with right := data.toInt8 } }
  | .echoVolumeLeft => { d with echo := { d.echo with volume := { d.echo.volume with left := data.toInt8 } } }
  | .echoVolumeRight => { d with echo := { d.echo with volume := { d.echo.volume with right := data.toInt8 } } }
  | .keyOn => { d with keyOn := data, pendingKeyOn := d.pendingKeyOn ||| data }
  | .keyOff => { d with keyOff := data }
  | .flags => { d with flags := data }
  | .ended => { d with ended := 0 }
  | .echoFeedback => { d with echo := { d.echo with feedback := data.toInt8 } }
  | .spare => { d with spare := data }
  | .pitchModulation => { d with pitchModulation := data }
  | .noiseEnable => { d with noiseEnable := data }
  | .echoEnable => { d with echo := { d.echo with enable := data } }
  | .directory => { d with directory := data }
  | .echoStart => { d with echo := { d.echo with startPage := data } }
  | .echoDelay => { d with echo := { d.echo with delay := data } }

def readRegister (d : Dsp) : DspRegister → UInt8
  | .voice v r => (d.voices.get v).readRegister r
  | .tap i => (d.echo.taps.get i).toUInt8
  | .global r => d.readGlobal r

def writeRegister (d : Dsp) (data : UInt8) : DspRegister → Dsp
  | .voice v r => { d with voices := d.voices.setIfInBounds v ((d.voices.get v).writeRegister data r) }
  | .tap i => { d with echo := { d.echo with taps := d.echo.taps.setIfInBounds i data.toInt8 } }
  | .global r => d.writeGlobal data r

def read (d : Dsp) (addr : UInt8) : UInt8 := d.readRegister (.ofAddress addr)

/-- The upper half of the addresses is read-only. -/
def write (d : Dsp) (addr data : UInt8) : Dsp :=
  if addr < 0x80 then d.writeRegister data (.ofAddress addr) else d

def mute (d : Dsp) (mask : UInt8) : Dsp := { d with muted := mask }

def Valid (d : Dsp) : Prop :=
  d.elapsed < sampleClocks ∧ d.counter.toNat < Rate.range ∧ d.echo.Valid ∧ ∀ v : Fin 8, (d.voices.get v).Valid

instance (d : Dsp) : Decidable d.Valid := inferInstanceAs (Decidable (_ ∧ _ ∧ _ ∧ _))

end Dsp

end SoundUnit
