import SoundUnit.Snapshot.Layout

namespace SoundUnit

namespace Snapshot

def magic : List UInt8 := [0x53, 0x50, 0x43, 0x37]

def version : Nat := 1

def header : List UInt8 := magic ++ Format.writeNat 2 version

def readHeader (bytes : List UInt8) : Except SnapshotFault (List UInt8) := do
  let m := bytes.take 4
  let (v, rest) ← Format.readNat 2 (bytes.drop 4)
  if m ≠ magic then throw .notSnapshot
  if v ≠ version then throw (.version v)
  return rest

def encode (m : Machine) : List UInt8 := header ++ SnapshotContents.format.write (.ofMachine m)

/-- The magic word and the version are checked before anything else is read. Bytes after the end are ignored. -/
def decode (bytes : List UInt8) : Except SnapshotFault Machine := do
  let rest ← readHeader bytes
  let (contents, _) ← SnapshotContents.format.read rest
  contents.toMachine

end Snapshot

namespace Machine

def save (m : Machine) : List UInt8 := Snapshot.encode m

def load (bytes : List UInt8) : Except Failure Machine := (Snapshot.decode bytes).mapError .snapshot

end Machine

end SoundUnit
