import SoundUnit.Machine.Basic

namespace SoundUnit

structure VoiceState where
  stage : Stage
  level : Int16
  envelopeReadback : UInt8
  outputReadback : UInt8
  pitch : UInt16
  source : UInt8
  ended : Bool

namespace Machine

def ram (m : Machine) : Ram := m.core.bus.ram

def dsp (m : Machine) : Dsp := m.core.bus.dsp

def registers (m : Machine) : Registers := m.core.registers

def peek (m : Machine) (addr : UInt16) : UInt8 := m.core.bus.peek addr

def instruction (m : Machine) : UInt8 × UInt8 × UInt8 :=
  let pc := m.registers.pc
  (m.peek pc, m.peek (pc + 1), m.peek (pc + 2))

def dspRegister (m : Machine) (addr : UInt8) : UInt8 := m.dsp.read addr

def timerOutputs (m : Machine) : Vector UInt8 3 := m.core.bus.timers.map Timer.output

def voice (m : Machine) (n : Nat) : Voice := m.dsp.voices.get (Fin.ofNat 8 n)

def voiceState (m : Machine) (n : Nat) : VoiceState :=
  let v := m.voice n
  { stage := v.envelope.stage
    level := v.envelope.level
    envelopeReadback := v.envelopeReadback
    outputReadback := v.outputReadback
    pitch := v.pitch &&& 0x3FFF
    source := v.source
    ended := Bit.test m.dsp.ended (Fin.ofNat 8 n) }

end Machine

def Stage.name : Stage → String
  | .attack => "Attack"
  | .decay => "Decay"
  | .sustain => "Sustain"
  | .release => "Release"
  | .off => "Off"

def Registers.registerLine (r : Registers) : String :=
  s!"a: ${Radix.hex 2 r.a.toNat} x: ${Radix.hex 2 r.x.toNat} y: ${Radix.hex 2 r.y.toNat} " ++
    s!"sp: ${Radix.hex 2 r.sp.toNat} pc: ${Radix.hex 4 r.pc.toNat}"

def Registers.statusLine (r : Registers) : String :=
  s!"nvpbhizc: {Radix.binary 8 r.status.toByte.toNat}" ++ if r.halted then " (halted)" else ""

def Registers.lines (r : Registers) : List String := [r.registerLine, r.statusLine]

def Registers.text (r : Registers) : String := "\n".intercalate r.lines

/-- A negative level is shown as an unsigned word. -/
def VoiceState.text (v : VoiceState) : String :=
  s!"{v.stage.name} ${Radix.hex 3 v.level.toUInt16.toNat} envx: ${Radix.hex 2 v.envelopeReadback.toNat} " ++
    s!"outx: ${Radix.hex 2 v.outputReadback.toNat} pitch: ${Radix.hex 4 v.pitch.toNat} " ++
    s!"src: ${Radix.hex 2 v.source.toNat}" ++ if v.ended then " (ended)" else ""

end SoundUnit
