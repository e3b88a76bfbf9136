import SoundUnit.Voice.Envelope
import SoundUnit.Voice.Interpolation
import SoundUnit.Voice.SampleStream

namespace SoundUnit

inductive VoiceRegister where
  | volumeLeft | volumeRight
  | pitchLow | pitchHigh
  | source
  | adsrLow | adsrHigh
  | gain
  | envelopeReadback | outputReadback
  | spareA | spareB | spareE
deriving DecidableEq

/-- After a key-on a voice is silent for five samples while its first twelve samples are decoded. The counter is the
position among the decoded samples in units of 1/4096; when it reaches four samples, the next group is decoded. -/
structure Voice where
  volume : Stereo Int8 := ⟨0, 0⟩
  pitch : UInt16 := 0
  source : UInt8 := 0
  envelopeReadback : UInt8 := 0
  outputReadback : UInt8 := 0
  spareA : UInt8 := 0
  spareB : UInt8 := 0
  spareE : UInt8 := 0
  envelope : Envelope := {}
  stream : SampleStream := {}
  counter : UInt16 := 0
  /-- Samples until the voice has started. -/
  startDelay : UInt8 := 0
  output : Int16 := 0
deriving DecidableEq

namespace Voice

structure Tick where
  counter : UInt16
  directory : UInt16
  /-- The noise, if the voice plays it in place of its samples. -/
  noise : Option Int
  /-- The output of the voice before, if it modulates the pitch. -/
  modulator : Option Int16

def keyOnDelay : UInt8 := 5

/-- The position at which the next four samples are needed. -/
def groupLength : UInt16 := 0x4000

def maxCounter : Int := 0x7FFF

def readRegister (v : Voice) : VoiceRegister → UInt8
  | .volumeLeft => v.volume.left.toUInt8
  | .volumeRight => v.volume.right.toUInt8
  | .pitchLow => Word.low v.pitch
  | .pitchHigh => Word.high v.pitch
  | .source => v.source
  | .adsrLow => Word.low v.envelope.adsr
  | .adsrHigh => Word.high v.envelope.adsr
  | .gain => v.envelope.gain
  | .envelopeReadback => v.envelopeReadback
  | .outputReadback => v.outputReadback
  | .spareA => v.spareA
  | .spareB => v.spareB
  | .spareE => v.spareE

def writeRegister (v : Voice) (data : UInt8) : VoiceRegister → Voice
  | .volumeLeft => { v with volume := { v.volume with left := data.toInt8 } }
  | .volumeRight => { v with volume := { v.volume with right := data.toInt8 } }
  | .pitchLow => { v with pitch := Word.setLow v.pitch data }
  | .pitchHigh => { v with pitch := Word.setHigh v.pitch data }
  | .source => { v with source := data }
  | .adsrLow => { v with envelope := { v.envelope with adsr := Word.setLow v.envelope.adsr data } }
  | .adsrHigh => { v with envelope := { v.envelope with adsr := Word.setHigh v.envelope.adsr data } }
  | .gain => { v with envelope := { v.envelope with gain := data } }
  | .envelopeReadback => { v with envelopeReadback := data }
  | .outputReadback => { v with outputReadback := data }
  | .spareA => { v with spareA := data }
  | .spareB => { v with spareB := data }
  | .spareE => { v with spareE := data }

def keyOn (v : Voice) : Voice := { v with startDelay := keyOnDelay, envelope := v.envelope.keyOn }

def keyOff (v : Voice) : Voice := { v with envelope := v.envelope.keyOff }

def stop (v : Voice) : Voice := { v with startDelay := 0, envelope := v.envelope.stop }

def directoryEntry (v : Voice) (directory : UInt16) : UInt16 := directory + v.source.toUInt16 * 4

def readAddress (ram : Ram) (addr : UInt16) : UInt16 := word (ram.read (addr + 1)) (ram.read addr)

def showReadback (v : Voice) : Voice :=
  { v with
    envelopeReadback := UInt8.ofNat (v.envelope.level.toInt / 16 % 256).toNat
    outputReadback := Word.high v.output.toUInt16 }

/-- Decodes a group. The result tells whether the sample's last block is complete; once everything has been played the
voice stops. -/
def decode (v : Voice) (ram : Ram) (directory : UInt16) : Voice × Bool :=
  let (stream, event) := v.stream.decodeGroup ram (readAddress ram (v.directoryEntry directory + 2))
  let v := { v with stream }
  match event with
  | .none => (v, false)
  | .looped => (v, true)
  | .ended => (v, true)
  | .finished => (v.stop, false)

def startUp (v : Voice) (ram : Ram) (tick : Tick) : Voice × Bool :=
  let v :=
    if v.startDelay = keyOnDelay then
      { v with
        stream := v.stream.restart (readAddress ram (v.directoryEntry tick.directory))
        counter := 0 }
    else v
  let v := { v with startDelay := v.startDelay - 1 }
  let (v, ended) := if 1 ≤ v.startDelay ∧ v.startDelay ≤ 3 then v.decode ram tick.directory else (v, false)
  ({ v with envelope := v.envelope.hold, output := 0 }.showReadback, ended)

def step (v : Voice) (modulator : Option Int16) : Int :=
  let pitch : Int := (v.pitch &&& 0x3FFF).toNat
  match modulator with
  | none => pitch
  | some m => pitch + m.toInt / 32 * pitch / 1024

def advance (v : Voice) (ram : Ram) (tick : Tick) : Voice × Bool :=
  let (v, ended) := if groupLength ≤ v.counter then v.decode ram tick.directory else (v, false)
  if v.envelope.stage = .off then (v, ended)
  else
    let position := (v.counter % groupLength).toNat + v.step tick.modulator
    ({ v with counter := UInt16.ofNat (min maxCounter (max 0 position)).toNat }, ended)

/-- The sample at the pitch counter. -/
def interpolated (v : Voice) : Int :=
  let n := v.counter.toNat / 4096
  Interpolation.interpolate (Fin.ofNat 256 (v.counter.toNat / 16)) (v.stream.get n).toInt
    (v.stream.get (n + 1)).toInt (v.stream.get (n + 2)).toInt (v.stream.get (n + 3)).toInt

def play (v : Voice) (ram : Ram) (tick : Tick) : Voice × Bool :=
  let sample := tick.noise.getD v.interpolated
  let output := Int16.ofInt (Sample.even (sample * v.envelope.level.toInt / 2048))
  let (v, ended) := { v with output, envelope := v.envelope.clock tick.counter }.advance ram tick
  (v.showReadback, ended)

/-- One sample. The result tells whether the voice has come to the end of its sample data. -/
def clock (v : Voice) (ram : Ram) (tick : Tick) : Voice × Bool :=
  if 0 < v.startDelay then v.startUp ram tick
  else if v.envelope.stage = .off then ({ v with output := 0 }.showReadback, false)
  else v.play ram tick

def Valid (v : Voice) : Prop :=
  v.startDelay ≤ keyOnDelay ∧ v.counter.toNat ≤ maxCounter ∧ v.envelope.Valid ∧ v.stream.Valid

instance (v : Voice) : Decidable v.Valid := inferInstanceAs (Decidable (_ ∧ _ ∧ _ ∧ _))

end Voice

end SoundUnit
