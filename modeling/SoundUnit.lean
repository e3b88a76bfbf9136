import SoundUnit.Main
import SoundUnit.Machine.Samples
import SoundUnit.Snapshot.Basic
import SoundUnit.Proofs.Snapshot.Exact
import SoundUnit.Proofs.Snapshot.Layout
import SoundUnit.Proofs.Snapshot.Codec
import SoundUnit.Proofs.Validity.Dsp
import SoundUnit.Proofs.Validity.Bus
import SoundUnit.Proofs.Bus.Passage
import SoundUnit.Proofs.Processor.Clocks
import SoundUnit.Proofs.Machine.Step
import SoundUnit.Proofs.Machine.Run
import SoundUnit.Proofs.Machine.Host
import SoundUnit.Proofs.Machine.Consistency
import SoundUnit.Proofs.Machine.Persistence
import SoundUnit.Proofs.Snapshot.Length
import SoundUnit.Proofs.Machine.SampleClock
import SoundUnit.Proofs.Voice.Equations
import SoundUnit.Proofs.Dsp.Voices
import SoundUnit.Proofs.Dsp.Muting
import SoundUnit.Proofs.Dsp.DelayLine
import SoundUnit.Proofs.Dsp.EchoClear
import SoundUnit.Proofs.Dsp.EchoWindow
import SoundUnit.Proofs.Dsp.MasterVolume
import SoundUnit.Proofs.Machine.Delivery
import SoundUnit.Proofs.Voice.Stages
import SoundUnit.Proofs.Voice.Resampler
import SoundUnit.Proofs.Voice.BlockStream
import SoundUnit.Proofs.Checked.Machine
import SoundUnit.Proofs.Dsp.KeyOn
import SoundUnit.Proofs.Voice.FreshStart
import SoundUnit.Proofs.Voice.Rest
import SoundUnit.Proofs.Voice.OneShot
import SoundUnit.Proofs.Dsp.Reachable
import SoundUnit.Proofs.Dsp.Release
import SoundUnit.Proofs.Dsp.RateEvents
import SoundUnit.Proofs.Voice.AdsrStages
import SoundUnit.Proofs.Bus.TimerExpiry
import SoundUnit.Proofs.Machine.Ports
import SoundUnit.Proofs.Processor.Halting
import SoundUnit.Proofs.Machine.Halting
import SoundUnit.Proofs.Machine.Restart
import SoundUnit.Proofs.Snapshot.Truncation
import SoundUnit.Proofs.Checked.Run
import SoundUnit.Proofs.Machine.Inspection
import SoundUnit.Proofs.Dsp.Registers
import SoundUnit.Proofs.Processor.Grid
import SoundUnit.Proofs.Processor.WordInstructions
import SoundUnit.Proofs.Processor.DecimalChains
import SoundUnit.Proofs.Processor.Division
import SoundUnit.Proofs.Processor.Calls
import SoundUnit.Proofs.Voice.Overshoot
import SoundUnit.Proofs.Output.Settling
import SoundUnit.Proofs.Debugger.CallStack
