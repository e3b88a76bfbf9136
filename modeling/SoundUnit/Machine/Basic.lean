import SoundUnit.Failure
import SoundUnit.Machine.Core

namespace SoundUnit

def clockRate : Nat := 1024000

def sampleRate : Nat := 32000

/-- The processor runs in whole instructions, so it can be a part of an instruction ahead of the clocks that were
asked for. Samples wait in the sound generator until the asked-for time has reached them; so how many samples there
are depends on that time alone, and not on how it is split into calls. -/
structure Machine where
  core : Core
  /-- What a hard reset puts into memory. -/
  ramImage : Option ByteArray := none
  /-- Clocks executed. -/
  executed : Nat := 0
  /-- Clocks asked for. -/
  target : Nat := 0
  /-- Samples that have moved into the output queue. -/
  released : Nat := 0
  output : Array Frame := #[]

namespace Machine

def start (bootRom : BootRom) (ram : Ram) (ramImage : Option ByteArray) : Machine where
  core := Core.start { ram, bootRom }
  ramImage := ramImage

def initial : Machine := start .standard .zero none

/-- The boot program of an image. It has to start inside itself. -/
def loadBootRom (image : ByteArray) : Except Failure BootRom :=
  match BootRom.ofBytes? image with
  | none => .error (.imageSize image.size BootRom.size)
  | some rom => if rom.resetVector < BootRom.base then .error (.resetVector rom.resetVector) else .ok rom

def loadRam (image : ByteArray) : Except Failure Ram :=
  match Ram.ofBytes? image with
  | none => .error (.imageSize image.size Ram.size)
  | some ram => .ok ram

def create (bootImage ramImage : Option ByteArray) : Except Failure Machine := do
  let bootRom ← match bootImage with
    | none => .ok .standard
    | some image => loadBootRom image
  let ram ← match ramImage with
    | none => .ok .zero
    | some image => loadRam image
  return start bootRom ram ramImage

/-- Moves the samples that are due into the output queue. -/
def release (m : Machine) : Machine :=
  let due := m.target / Dsp.sampleClocks - m.released
  let (frames, dsp) := m.core.bus.dsp.take due
  { m with
    core := { m.core with bus := { m.core.bus with dsp } }
    released := m.released + frames.size
    output := m.output ++ frames }

def run (m : Machine) (clocks : Nat) : Machine :=
  let target := m.target + clocks
  let (executed, core) := m.core.runTo target m.executed
  { m with core, executed, target }.release

/-- Runs and throws away the samples that come out of it. -/
def skip (m : Machine) (clocks : Nat) : Machine :=
  let queued := m.output.size
  let m := m.run clocks
  { m with output := m.output.extract 0 queued }

/-- One step, as if exactly its clocks were asked for. The result is the number of clocks. -/
def step (m : Machine) : Nat × Machine :=
  let (clocks, core) := m.core.step
  let executed := m.executed + clocks
  (clocks, { m with core, executed, target := executed }.release)

def available (m : Machine) : Nat := m.output.size

def read (m : Machine) (n : Nat) : Array Frame × Machine :=
  (m.output.extract 0 n, { m with output := m.output.extract n m.output.size })

def withBus (m : Machine) (f : Bus → Bus) : Machine :=
  { m with core := { m.core with bus := f m.core.bus } }

def writePort (m : Machine) (port : Nat) (data : UInt8) : Machine := m.withBus (·.writePort port data)

def readPort (m : Machine) (port : Nat) : UInt8 := m.core.bus.readPort port

def clearEcho (m : Machine) : Machine := m.withBus Bus.clearEcho

def mute (m : Machine) (mask : UInt8) : Machine := m.withBus (·.mute mask)

def freshRam (m : Machine) : Ram := (m.ramImage.bind Ram.ofBytes?).getD .zero

/-- Starts again from time zero. A soft reset leaves memory alone. The output queue stays. -/
def reset (m : Machine) (soft : Bool) : Machine :=
  let bus := m.core.bus.reset
  { m with
    core := Core.start (if soft then bus else { bus with ram := m.freshRam })
    executed := 0
    target := 0
    released := 0 }

/-- The four counts of time agree: the processor is less than an instruction ahead of the asked-for time, a sample was
made for every 32 executed clocks, and as many of them are released as the asked-for time has reached. -/
def ClockValid (m : Machine) : Prop :=
  m.target ≤ m.executed ∧ m.executed - m.target < Core.maxStepClocks ∧
    m.released = m.target / Dsp.sampleClocks ∧
    m.released + m.core.bus.dsp.frames.size = m.executed / Dsp.sampleClocks

instance (m : Machine) : Decidable m.ClockValid := inferInstanceAs (Decidable (_ ∧ _ ∧ _ ∧ _))

/-- A state that a machine can reach: the timers and the sound generator are in range and the counts of time agree. -/
def Valid (m : Machine) : Prop := m.core.bus.TimersValid ∧ m.core.bus.dsp.Valid ∧ m.ClockValid

instance (m : Machine) : Decidable m.Valid := inferInstanceAs (Decidable (_ ∧ _ ∧ _))

end Machine

end SoundUnit
