import SoundUnit.Machine.Basic
import SoundUnit.Snapshot.Format

namespace SoundUnit

namespace Format

def word : Format UInt16 := (nat 2).map UInt16.ofNat UInt16.toNat

def signedByte : Format Int8 := byte.map UInt8.toInt8 Int8.toUInt8

def signedWord : Format Int16 := word.map UInt16.toInt16 Int16.toUInt16

def signedLong : Format Int32 := (nat 4).map (fun n ↦ (UInt32.ofNat n).toInt32) (·.toUInt32.toNat)

def count : Format Nat := nat 8

def stereo {α : Type} (f : Format α) : Format (Stereo α) :=
  (f.seq f).map (fun (left, right) ↦ ⟨left, right⟩) (fun s ↦ (s.left, s.right))

def frame : Format Frame := signedWord.stereo

def registers : Format Registers :=
  (byte.seq <| byte.seq <| byte.seq <| byte.seq <| word.seq <| byte.seq bool).map
    (fun (a, x, y, sp, pc, status, halted) ↦ { a, x, y, sp, pc, status := .ofByte status, halted })
    (fun r ↦ (r.a, r.x, r.y, r.sp, r.pc, r.status.toByte, r.halted))

def timer : Format Timer :=
  (byte.seq <| byte.seq <| byte.seq <| bool.seq <| count.seq count).map
    (fun (target, stage, output, enabled, period, elapsed) ↦
      { target, stage, output, enabled, period, elapsed })
    (fun t ↦ (t.target, t.stage, t.output, t.enabled, t.period, t.elapsed))

def stages : Vector Stage 5 := #v[.attack, .decay, .sustain, .release, .off]

def stageNumber : Stage → Nat
  | .attack => 0
  | .decay => 1
  | .sustain => 2
  | .release => 3
  | .off => 4

def stage : Format Stage :=
  (nat 4).filterMap (fun n ↦ if h : n < 5 then .ok stages[n] else .error (.badStage n)) stageNumber

def envelope : Format Envelope :=
  (word.seq <| byte.seq <| stage.seq <| signedWord.seq signedLong).map
    (fun (adsr, gain, stage, level, hidden) ↦ { adsr, gain, stage, level, hidden })
    (fun e ↦ (e.adsr, e.gain, e.stage, e.level, e.hidden))

def stream : Format SampleStream :=
  (word.seq <| word.seq <| (signedWord.vector 12).seq <| count.seq byte).map
    (fun (block, offset, ring, position, tail) ↦ { block, offset, ring, position, tail })
    (fun s ↦ (s.block, s.offset, s.ring, s.position, s.tail))

def voice : Format Voice :=
  (signedByte.stereo.seq <| word.seq <| byte.seq <| byte.seq <| byte.seq <| byte.seq <| byte.seq <| byte.seq <|
      envelope.seq <| stream.seq <| word.seq <| byte.seq signedWord).map
    (fun (volume, pitch, source, envelopeReadback, outputReadback, spareA, spareB, spareE, envelope, stream,
        counter, startDelay, output) ↦
      { volume, pitch, source, envelopeReadback, outputReadback, spareA, spareB, spareE, envelope, stream,
        counter, startDelay, output })
    (fun v ↦ (v.volume, v.pitch, v.source, v.envelopeReadback, v.outputReadback, v.spareA, v.spareB, v.spareE,
      v.envelope, v.stream, v.counter, v.startDelay, v.output))

def echo : Format Echo :=
  (signedByte.stereo.seq <| signedByte.seq <| byte.seq <| byte.seq <| byte.seq <| (signedByte.vector 8).seq <|
      word.seq <| word.seq <| (frame.vector 8).seq count).map
    (fun (volume, feedback, enable, startPage, delay, taps, length, offset, history, newest) ↦
      { volume, feedback, enable, startPage, delay, taps, length, offset, history, newest })
    (fun e ↦ (e.volume, e.feedback, e.enable, e.startPage, e.delay, e.taps, e.length, e.offset, e.history,
      e.newest))

def dsp : Format Dsp :=
  (count.seq <| frame.array.seq <| signedByte.stereo.seq <| byte.seq <| byte.seq <| byte.seq <| byte.seq <|
      byte.seq <| byte.seq <| byte.seq <| byte.seq <| byte.seq <| word.seq <| word.seq <| byte.seq <|
      echo.seq (voice.vector 8)).map
    (fun (elapsed, frames, mainVolume, flags, keyOn, pendingKeyOn, keyOff, ended, pitchModulation, noiseEnable,
        directory, spare, counter, noise, muted, echo, voices) ↦
      { elapsed, frames, mainVolume, flags, keyOn, pendingKeyOn, keyOff, ended, pitchModulation, noiseEnable,
        directory, spare, counter, noise, muted, echo, voices })
    (fun d ↦ (d.elapsed, d.frames, d.mainVolume, d.flags, d.keyOn, d.pendingKeyOn, d.keyOff, d.ended,
      d.pitchModulation, d.noiseEnable, d.directory, d.spare, d.counter, d.noise, d.muted, d.echo, d.voices))

end Format

/-- What a saved state holds, before it is known to make sense. -/
structure SnapshotContents where
  registers : Registers
  ram : ByteArray
  bootRom : ByteArray
  control : UInt8
  dspAddress : UInt8
  dsp : Dsp
  portsIn : Vector UInt8 4
  portsOut : Vector UInt8 4
  timers : Vector Timer 3
  ramImage : Option ByteArray
  executed : Nat
  target : Nat
  released : Nat
  output : Array Frame

namespace SnapshotContents

def format : Format SnapshotContents :=
  (Format.registers.seq <| Format.bytes.seq <| Format.bytes.seq <| Format.byte.seq <| Format.byte.seq <|
      Format.dsp.seq <| (Format.byte.vector 4).seq <| (Format.byte.vector 4).seq <| (Format.timer.vector 3).seq <|
      Format.bytes.option.seq <| Format.count.seq <| Format.count.seq <| Format.count.seq Format.frame.array).map
    (fun (registers, ram, bootRom, control, dspAddress, dsp, portsIn, portsOut, timers, ramImage, executed, target,
        released, output) ↦
      { registers, ram, bootRom, control, dspAddress, dsp, portsIn, portsOut, timers, ramImage, executed, target,
        released, output })
    (fun c ↦ (c.registers, c.ram, c.bootRom, c.control, c.dspAddress, c.dsp, c.portsIn, c.portsOut, c.timers,
      c.ramImage, c.executed, c.target, c.released, c.output))

def ofMachine (m : Machine) : SnapshotContents where
  registers := m.core.registers
  ram := m.core.bus.ram.bytes
  bootRom := m.core.bus.bootRom.bytes
  control := m.core.bus.control
  dspAddress := m.core.bus.dspAddress
  dsp := m.core.bus.dsp
  portsIn := m.core.bus.portsIn
  portsOut := m.core.bus.portsOut
  timers := m.core.bus.timers
  ramImage := m.ramImage
  executed := m.executed
  target := m.target
  released := m.released
  output := m.output

/-- The machine with these contents, if they fit together. The first check that fails decides. -/
def toMachine (c : SnapshotContents) : Except SnapshotFault Machine := do
  let some ram := Ram.ofBytes? c.ram | throw .ramSize
  let some bootRom := BootRom.ofBytes? c.bootRom | throw .bootRomSize
  let bus : Bus :=
    { ram, bootRom, control := c.control, dspAddress := c.dspAddress, dsp := c.dsp, portsIn := c.portsIn
      portsOut := c.portsOut, timers := c.timers }
  let m : Machine :=
    { core := { registers := c.registers, bus }, ramImage := c.ramImage, executed := c.executed
      target := c.target, released := c.released, output := c.output }
  unless bus.TimersValid do throw .timers
  unless bus.dsp.Valid do throw .dsp
  unless m.ClockValid do throw .sampleClock
  return m

end SnapshotContents

end SoundUnit
