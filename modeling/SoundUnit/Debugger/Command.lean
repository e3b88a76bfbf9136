import SoundUnit.Text.Blank
import SoundUnit.Text.Radix

namespace SoundUnit

namespace Debugger

inductive Item where
  | a | x | y | sp | pc | ps
  | clock
  | timers
  | cell (addr : UInt16)
  /-- The cells from `first` up to, and without, `last`. -/
  | range (first last : UInt16)
deriving DecidableEq

inductive Malformed where
  | breakpoint (fault : Radix.Fault)
  | steps (fault : Radix.Fault)
  | dspRegister (fault : Radix.Fault)
  | voice (fault : Radix.Fault)
  | voiceNumber (n : Nat)
  | item (fault : Radix.Fault)
deriving DecidableEq

def Malformed.message : Malformed → String
  | .breakpoint fault => s!"Invalid breakpoint: {fault.message}"
  | .steps fault => s!"Invalid number of steps: {fault.message}"
  | .dspRegister fault => s!"Invalid DSP register: {fault.message}"
  | .voice fault => s!"Invalid voice: {fault.message}"
  | .voiceNumber n => s!"Invalid voice: {n}"
  | .item fault => s!"Invalid p tag: {fault.message}"

inductive Command where
  | insertBreak (addr : UInt16)
  | clearBreak (addr : UInt16)
  | clearBreaks
  | run
  | steps (n : Nat)
  | step
  | showDspRegister (addr : UInt8)
  | showVoice (v : Fin 8)
  | showVoices
  | show (item : Item)
  | showRegisters
  | showCalls
  | help
  | quit
  /-- A line that means nothing. -/
  | ignore
  | malformed (reason : Malformed)
deriving DecidableEq

def readAddress (text : List Char) : Except Radix.Fault UInt16 :=
  (Radix.read 16 0x10000 text).map UInt16.ofNat

def readCount (text : List Char) : Except Radix.Fault Nat := Radix.read 10 UInt64.size text

def Item.named? (text : List Char) : Option Item :=
  [("a", Item.a), ("x", .x), ("y", .y), ("sp", .sp), ("pc", .pc), ("ps", .ps), ("clock", .clock), ("timers", .timers)]
    |>.lookup (String.ofList text)

def Item.read (text : List Char) : Except Radix.Fault Item :=
  match Item.named? text with
  | some item => .ok item
  | none =>
    match text.dropWhile (· ≠ '-') with
    | [] => return .cell (← readAddress text)
    | _ :: last => return .range (← readAddress (text.takeWhile (· ≠ '-'))) (← readAddress last)

def Command.ofArgument {α : Type} (argument : Except Radix.Fault α) (command : α → Command)
    (reason : Radix.Fault → Malformed) : Command :=
  match argument with
  | .ok value => command value
  | .error fault => .malformed (reason fault)

def Command.showVoiceNumber (n : Nat) : Command :=
  if h : n < 8 then .showVoice ⟨n, h⟩ else .malformed (.voiceNumber n)

def Command.ofLine (line : List Char) : Command :=
  match line with
  | 'b' :: ':' :: rest => ofArgument (readAddress (Blank.trim rest)) .insertBreak .breakpoint
  | 'c' :: ':' :: rest => ofArgument (readAddress (Blank.trim rest)) .clearBreak .breakpoint
  | 'c' :: _ => .clearBreaks
  | 'r' :: _ => .run
  | 's' :: ':' :: rest => ofArgument (readCount (Blank.trim rest)) .steps .steps
  | 's' :: _ => .step
  | 'd' :: ':' :: rest =>
    ofArgument ((Radix.read 16 0x100 (Blank.trim rest)).map UInt8.ofNat) .showDspRegister .dspRegister
  | 'v' :: ':' :: rest => ofArgument (readCount (Blank.trim rest)) showVoiceNumber .voice
  | 'v' :: _ => .showVoices
  | 'p' :: ':' :: rest => ofArgument (Item.read (Blank.trim rest)) .show .item
  | 'p' :: _ => .showRegisters
  | 't' :: _ => .showCalls
  | 'h' :: _ => .help
  | 'q' :: _ => .quit
  | _ => .ignore

end Debugger

end SoundUnit
