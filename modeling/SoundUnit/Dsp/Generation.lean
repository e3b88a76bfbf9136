import SoundUnit.Dsp.Basic

namespace SoundUnit

def allVoices : List (Fin 8) := [0, 1, 2, 3, 4, 5, 6, 7]

/-- The effect of the key registers on a voice: a key-on wins over a key-off. -/
def Voice.applyKeys (v : Voice) (off on : Bool) : Voice :=
  let v := if off then v.keyOff else v
  if on then v.keyOn else v

def Voice.loudness (v : Voice) : Stereo Int := v.volume.map fun volume ↦ v.output.toInt * volume.toInt / 128

namespace Dsp

def stepCounter (d : Dsp) : Dsp := { d with counter := Rate.nextCounter d.counter }

/-- One shift of the noise register, a feedback shift register of 15 bits. -/
def shiftNoise (noise : UInt16) : UInt16 :=
  let feedback : UInt16 := noise <<< 13 ^^^ noise <<< 14
  let shifted : UInt16 := noise >>> 1
  feedback &&& 0x4000 ^^^ shifted

def stepNoise (d : Dsp) : Dsp :=
  { d with noise := if d.noiseRate.fires d.counter then shiftNoise d.noise else d.noise }

/-- Key-ons happen once; key-offs last as long as the register is set. A soft reset stops every voice and drops the
key-ons. -/
def applyKeys (d : Dsp) : Dsp :=
  if d.softReset then { d with voices := d.voices.map Voice.stop, pendingKeyOn := 0 }
  else
    { d with
      voices := Vector.ofFn fun v ↦ (d.voices.get v).applyKeys (Bit.test d.keyOff v) (Bit.test d.pendingKeyOn v)
      ended := d.ended &&& ~~~d.pendingKeyOn
      pendingKeyOn := 0 }

/-- The output of the voice before, if it modulates the pitch of voice `v`. -/
def modulator (d : Dsp) (v : Fin 8) : Option Int16 :=
  if 0 < v.val ∧ Bit.test d.pitchModulation v then some d.voices[v.val - 1].output else none

def voiceTick (d : Dsp) (v : Fin 8) : Voice.Tick where
  counter := d.counter
  directory := word d.directory 0
  noise := if Bit.test d.noiseEnable v then some (d.noise <<< 1).toInt16.toInt else none
  modulator := d.modulator v

def clockVoice (ram : Ram) (d : Dsp) (v : Fin 8) : Dsp :=
  let (voice, ended) := (d.voices.get v).clock ram (d.voiceTick v)
  { d with
    voices := d.voices.setIfInBounds v voice
    ended := if ended then d.ended ||| Bit.mask v else d.ended }

def clockVoices (d : Dsp) (ram : Ram) : Dsp := allVoices.foldl (clockVoice ram) d

/-- The sum of the chosen voices, saturating after each one. -/
def mix (d : Dsp) (chosen : Fin 8 → Bool) : Stereo Int :=
  allVoices.foldl
    (fun sum v ↦
      if chosen v then sum.zipWith (fun x y ↦ Sample.clamp (x + y)) (d.voices.get v).loudness else sum)
    ⟨0, 0⟩

/-- The voices that are heard. -/
def mainMix (d : Dsp) : Stereo Int := d.mix fun v ↦ !Bit.test d.muted v

/-- The voices that go into the echo. -/
def echoMix (d : Dsp) : Stereo Int := d.mix fun v ↦ !Bit.test d.muted v && Bit.test d.echo.enable v

def output (d : Dsp) (filtered : Stereo Int) : Frame :=
  if d.silenced then Frame.silence
  else
    let side (main mainVolume echo echoVolume) :=
      Int16.ofInt (Sample.clamp (Echo.amplify main mainVolume + Echo.amplify echo echoVolume))
    let main := d.mainMix
    ⟨side main.left d.mainVolume.left filtered.left d.echo.volume.left,
      side main.right d.mainVolume.right filtered.right d.echo.volume.right⟩

def prepare (d : Dsp) (ram : Ram) : Dsp := d.stepCounter.stepNoise.applyKeys.clockVoices ram

def generate (d : Dsp) (ram : Ram) : Frame × Dsp × Ram :=
  let d := d.prepare ram
  let d := { d with echo := d.echo.receive ram }
  let filtered := d.echo.filter
  let frame := d.output filtered
  let (echo, ram) := d.echo.send ram d.echoMix filtered d.echoWrites
  (frame, { d with echo }, ram)

def tick (d : Dsp) (ram : Ram) : Dsp × Ram :=
  let (frame, d, ram) := d.generate ram
  ({ d with frames := d.frames.push frame }, ram)

def ticks : Nat → Dsp → Ram → Dsp × Ram
  | 0, d, ram => (d, ram)
  | n + 1, d, ram =>
    let (d, ram) := d.tick ram
    ticks n d ram

theorem ticks_add (m n : Nat) (d : Dsp) (ram : Ram) :
    ticks (m + n) d ram = ticks n (ticks m d ram).1 (ticks m d ram).2 := by
  induction m generalizing d ram with
  | zero => rw [Nat.zero_add, ticks]
  | succ m ih =>
    rw [Nat.succ_add]
    exact ih _ _

def clock (d : Dsp) (clocks : Nat) (ram : Ram) : Dsp × Ram :=
  let total := d.elapsed + clocks
  ticks (total / sampleClocks) { d with elapsed := total % sampleClocks } ram

def take (d : Dsp) (n : Nat) : Array Frame × Dsp :=
  (d.frames.extract 0 n, { d with frames := d.frames.extract n d.frames.size })

def clearEcho (d : Dsp) (ram : Ram) : Dsp × Ram :=
  let (echo, ram) := d.echo.clear ram
  ({ d with echo }, ram)

end Dsp

end SoundUnit
