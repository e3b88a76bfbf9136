import SoundUnit.Debugger.Command
import SoundUnit.Machine.Inspection

namespace SoundUnit

namespace Debugger

structure Session where
  machine : Machine
  breakpoints : List UInt16 := []
  /-- The addresses of the calls under way, the innermost one first. -/
  calls : List UInt16 := []

inductive Phase where
  | prompt
  | running
  | over
deriving DecidableEq

structure Response where
  lines : List String
  session : Session
  phase : Phase := .prompt

def greeting : List String := ["Debug mode.", "Enter 'h' for help."]

def helpLines : List String := [
  "b:x: New breakpoint at memory location x (hex).",
  "c:x: Clear breakpoint at memory location x (hex).",
  "r: Keep running until a breakpoint is hit, or the processor halts.",
  "s: Step a single instruction.",
  "s:x: Step multiple instructions (base 10).",
  "t: Print the stack trace (all the call locations).",
  "p: Print the current state of the SPC.",
  "p:x: Print x - if x is a number, print the contents of that address, " ++
    "otherwise print the register (or 'timers' / 'clock').",
  "p:x-y: Print the memory in the range x -> y.",
  "d:x: Print DSP register x (hex).",
  "v: Print the key registers and the state of every voice.",
  "v:x: Print the state of voice x (0-7).",
  "q: Quit execution."]

/-- The answer to a line that is not UTF-8. -/
def undecodable : String := "Input error: stream did not contain valid UTF-8"

/-- The calls under way after the instruction with an opcode at an address: calls come in at the front, and a return
takes the innermost one away. -/
def traceCall (opcode : UInt8) (pc : UInt16) (calls : List UInt16) : List UInt16 :=
  match Instruction.ofOpcode opcode with
  | .call | .callPage | .callTable _ | .trap => pc :: calls
  | .ret | .retTrap => calls.tail
  | _ => calls

def byteText (b : UInt8) : String := "$" ++ Radix.hex 2 b.toNat

def addressText (addr : UInt16) : String := "$" ++ Radix.hex 4 addr.toNat

def bitsText (b : UInt8) : String := "b" ++ Radix.binary 8 b.toNat

namespace Session

def step (s : Session) : Session :=
  { s with
    calls := traceCall s.machine.instruction.1 s.machine.registers.pc s.calls
    machine := s.machine.step.2 }

def stepLine (s : Session) : String :=
  let (opcode, first, second) := s.machine.instruction
  s!"{addressText s.machine.registers.pc}: {byteText opcode} ({Radix.hex 2 first.toNat} {Radix.hex 2 second.toNat})"

/-- Announces and makes `n` steps; the lines so far are given newest first. -/
def steps : Nat → List String → Session → List String × Session
  | 0, lines, s => (lines.reverse, s)
  | n + 1, lines, s => steps n (s.stepLine :: lines) s.step

def stopLine? (s : Session) : Option String :=
  let r := s.machine.registers
  if s.breakpoints.contains r.pc then some s!"Break at {addressText r.pc}"
  else if r.halted then some s!"Halted at {addressText r.pc}"
  else none

/-- Runs for at most `n` steps. The line is there if something has stopped the machine. -/
def resume : Nat → Session → Option String × Session
  | 0, s => (none, s)
  | n + 1, s =>
    match s.stopLine? with
    | some line => (some line, s)
    | none => resume n s.step

def voiceLine (s : Session) (v : Fin 8) : String := s!"Voice {v.val}: {(s.machine.voiceState v.val).text}"

def keyLine (s : Session) : String :=
  s!"kon: {bitsText (s.machine.dspRegister 0x4C)} koff: {bitsText (s.machine.dspRegister 0x5C)} " ++
    s!"endx: {bitsText (s.machine.dspRegister 0x7C)}"

def cells (s : Session) (first : UInt16) (n : Nat) : List String :=
  (List.range n).map fun i ↦ Radix.hex 2 (s.machine.peek (first + UInt16.ofNat i)).toNat

def itemLines (s : Session) (item : Item) : List String :=
  let r := s.machine.registers
  match item with
  | .a => [s!"a: {byteText r.a}"]
  | .x => [s!"x: {byteText r.x}"]
  | .y => [s!"y: {byteText r.y}"]
  | .sp => [s!"sp: {byteText r.sp}"]
  | .pc => [s!"pc: {addressText r.pc}"]
  | .ps => [s!"ps: {bitsText r.status.toByte}"]
  | .clock => [s!"cycles: {s.machine.executed} target: {s.machine.target} samples: {s.machine.released}"]
  | .timers => ["timers: " ++ " ".intercalate (s.machine.timerOutputs.toList.map fun t ↦ Radix.hex 1 t.toNat)]
  | .cell addr => [s!"{addressText addr}: {byteText (s.machine.peek addr)}"]
  | .range first last =>
    [s!"{addressText first} - {addressText last}:", " ".intercalate (s.cells first (last.toNat - first.toNat))]

/-- The calls under way, the outermost one first. An empty trace is an empty line. -/
def callLines (s : Session) : List String :=
  if s.calls.isEmpty then [""] else (s.calls.map addressText).reverse

def perform (s : Session) : Command → Response
  | .insertBreak addr =>
    { lines := [s!"Inserted breakpoint at {addressText addr}"]
      session := { s with breakpoints := addr :: s.breakpoints } }
  | .clearBreak addr =>
    { lines := [s!"Cleared breakpoint at {addressText addr}"]
      session := { s with breakpoints := s.breakpoints.filter (· ≠ addr) } }
  | .clearBreaks => { lines := ["Cleared all breakpoints"], session := { s with breakpoints := [] } }
  | .run => { lines := [], session := s, phase := .running }
  | .steps n =>
    let (lines, session) := s.steps n []
    { lines, session }
  | .step => { lines := [s.stepLine], session := s.step }
  | .showDspRegister addr =>
    { lines := [s!"DSP {byteText addr}: {byteText (s.machine.dspRegister addr)}"], session := s }
  | .showVoice v => { lines := [s.voiceLine v], session := s }
  | .showVoices => { lines := s.keyLine :: allVoices.map s.voiceLine, session := s }
  | .show item => { lines := s.itemLines item, session := s }
  | .showRegisters => { lines := s.machine.registers.lines, session := s }
  | .showCalls => { lines := s.callLines, session := s }
  | .help => { lines := helpLines, session := s }
  | .quit => { lines := [], session := s, phase := .over }
  | .ignore => { lines := [], session := s }
  | .malformed reason => { lines := [reason.message], session := s }

def respond (s : Session) (line : ByteArray) : Response :=
  match String.fromUTF8? line with
  | some text => s.perform (Command.ofLine text.toList)
  | none => { lines := [undecodable], session := s }

end Session

end Debugger

end SoundUnit
