import SoundUnit.Debugger.Session
import SoundUnit.Rendering

namespace SoundUnit.CommandLine

open Debugger

/-- A line of input with its line feed. It is empty at the end of the input. -/
partial def readLine (input : IO.FS.Stream) (line : ByteArray) : IO ByteArray := do
  let byte ← input.read 1
  if byte.isEmpty then return line
  if byte == "\n".toUTF8 then return line ++ byte
  readLine input (line ++ byte)

partial def finish (s : Session) : String × Session :=
  match s.resume 65536 with
  | (some line, s) => (line, s)
  | (none, s) => finish s

partial def converse (input : IO.FS.Stream) (s : Session) : IO Unit := do
  let line ← readLine input ByteArray.empty
  if line.isEmpty then return
  let response := s.respond line
  for line in response.lines do IO.println line
  match response.phase with
  | .prompt => converse input response.session
  | .over => return
  | .running =>
    let (line, s) := finish response.session
    IO.println line
    converse input s

def start (ramPath : String) (bootPath : Option String) (debug : Bool) : IO UInt32 := do
  let ramImage ← IO.FS.readBinFile ramPath
  let bootImage ← match bootPath with
    | none => pure none
    | some path => some <$> IO.FS.readBinFile path
  match Machine.create bootImage (some ramImage) with
  | .error failure =>
    IO.eprintln failure.refusal
    return 1
  | .ok machine =>
    if debug then
      for line in greeting do IO.println line
      converse (← IO.getStdin) { machine }
    else
      for line in machine.render do IO.println line
    return 0

end SoundUnit.CommandLine

/-- The arguments are a memory image, a boot image or a hyphen, and, to start the debugger, anything after them. -/
def main (args : List String) : IO UInt32 := do
  match args with
  | [] =>
    IO.eprintln "Expected RAM image path as first argument!"
    return 101
  | ramPath :: rest =>
    SoundUnit.CommandLine.start ramPath (rest.head?.filter (· ≠ "-")) (1 < rest.length)
