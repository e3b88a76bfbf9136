import SoundUnit.Bus.Location
import SoundUnit.Bus.Timer
import SoundUnit.Dsp.Generation
import SoundUnit.Memory.BootRom

namespace SoundUnit

def Bus.powerOnTimers : Vector Timer 3 := #v[{ period := 128 }, { period := 128 }, { period := 16 }]

structure Bus where
  ram : Ram
  bootRom : BootRom
  /-- Bit 7 shows the boot program, bits 2 to 0 run the timers. -/
  control : UInt8 := 0xB0
  dspAddress : UInt8 := 0
  dsp : Dsp := {}
  /-- What the host has written for the processor. -/
  portsIn : Vector UInt8 4 := Vector.replicate 4 0
  /-- What the processor has written for the host. -/
  portsOut : Vector UInt8 4 := Vector.replicate 4 0
  timers : Vector Timer 3 := Bus.powerOnTimers

namespace Bus

def controlMask : UInt8 := 0xB7

/-- The clocks of each timer's prescaler. -/
def timerPeriods : Vector Nat 3 := #v[128, 128, 16]

def bootMapped (b : Bus) : Bool := Bit.test b.control 7

def peek (b : Bus) (addr : UInt16) : UInt8 :=
  match Location.ofAddress addr with
  | .ram => b.ram.read addr
  | .test => 0
  | .control => 0
  | .dspAddress => b.dspAddress
  | .dspData => b.dsp.read b.dspAddress
  | .port i => b.portsIn.get i
  | .timerTarget _ => 0
  | .timerOutput i => (b.timers.get i).output
  | .boot i => if b.bootMapped then b.bootRom.read i else b.ram.read addr

/-- Reads as the processor does: the output of a timer is cleared by being read. -/
def read (b : Bus) (addr : UInt16) : UInt8 × Bus :=
  match Location.ofAddress addr with
  | .timerOutput i =>
    let (output, timer) := (b.timers.get i).readOutput
    (output, { b with timers := b.timers.setIfInBounds i timer })
  | _ => (b.peek addr, b)

/-- The control register starts and stops the timers, and bits of it clear the ports in pairs. -/
def writeControl (b : Bus) (data : UInt8) : Bus :=
  { b with
    control := data &&& controlMask
    timers := Vector.ofFn fun i ↦ (b.timers.get i).setEnabled (Bit.test data ⟨i, by omega⟩)
    portsIn := Vector.ofFn fun i ↦
      if Bit.test data (if i.val < 2 then 4 else 5) then 0 else b.portsIn.get i }

/-- Writes to the addresses of the boot program reach the memory under it. -/
def write (b : Bus) (addr : UInt16) (data : UInt8) : Bus :=
  match Location.ofAddress addr with
  | .ram => { b with ram := b.ram.write addr data }
  | .test => b
  | .control => b.writeControl data
  | .dspAddress => { b with dspAddress := data }
  | .dspData => { b with dsp := b.dsp.write b.dspAddress data }
  | .port i => { b with portsOut := b.portsOut.setIfInBounds i data }
  | .timerTarget i => { b with timers := b.timers.setIfInBounds i { b.timers.get i with target := data } }
  | .timerOutput _ => b
  | .boot _ => { b with ram := b.ram.write addr data }

def clock (b : Bus) (clocks : Nat) : Bus :=
  let (dsp, ram) := b.dsp.clock clocks b.ram
  { b with timers := b.timers.map (·.clock clocks), dsp, ram }

def reset (b : Bus) : Bus := { ram := b.ram, bootRom := b.bootRom }

def writePort (b : Bus) (port : Nat) (data : UInt8) : Bus :=
  { b with portsIn := b.portsIn.setIfInBounds (Fin.ofNat 4 port) data }

def readPort (b : Bus) (port : Nat) : UInt8 := b.portsOut.get (Fin.ofNat 4 port)

def mute (b : Bus) (mask : UInt8) : Bus := { b with dsp := b.dsp.mute mask }

def clearEcho (b : Bus) : Bus :=
  let (dsp, ram) := b.dsp.clearEcho b.ram
  { b with dsp, ram }

def TimersValid (b : Bus) : Prop := ∀ i : Fin 3, (b.timers.get i).Valid (timerPeriods.get i)

instance (b : Bus) : Decidable b.TimersValid := inferInstanceAs (Decidable (∀ _, _))

end Bus

end SoundUnit
