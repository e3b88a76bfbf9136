import SoundUnit.Failure

namespace SoundUnit

/-- A way to write values as bytes and to read them back from the front of a list. A reader gives the value and the
bytes after it, or the first fault that it meets. -/
structure Format (α : Type) where
  write : α → List UInt8
  read : List UInt8 → Except SnapshotFault (α × List UInt8)

namespace Format

variable {α β : Type}

def byte : Format UInt8 where
  write b := [b]
  read
    | [] => .error .endOfData
    | b :: rest => .ok (b, rest)

/-- Writes the low `k` bytes of a number, the lowest one first. -/
def writeNat : Nat → Nat → List UInt8
  | 0, _ => []
  | k + 1, n => UInt8.ofNat n :: writeNat k (n / 256)

def readNat : Nat → List UInt8 → Except SnapshotFault (Nat × List UInt8)
  | 0, bytes => .ok (0, bytes)
  | _ + 1, [] => .error .endOfData
  | k + 1, b :: bytes => do
    let (n, rest) ← readNat k bytes
    return (b.toNat + 256 * n, rest)

def nat (k : Nat) : Format Nat where
  write := writeNat k
  read := readNat k

def map (f : Format α) (decode : α → β) (encode : β → α) : Format β where
  write b := f.write (encode b)
  read bytes := do
    let (a, rest) ← f.read bytes
    return (decode a, rest)

/-- Like `map`, with values of this type that stand for nothing. -/
def filterMap (f : Format α) (decode : α → Except SnapshotFault β) (encode : β → α) : Format β where
  write b := f.write (encode b)
  read bytes := do
    let (a, rest) ← f.read bytes
    return (← decode a, rest)

def seq (f : Format α) (g : Format β) : Format (α × β) where
  write p := f.write p.1 ++ g.write p.2
  read bytes := do
    let (a, rest) ← f.read bytes
    let (b, rest) ← g.read rest
    return ((a, b), rest)

def readMany (f : Format α) : Nat → Array α → List UInt8 → Except SnapshotFault (Array α × List UInt8)
  | 0, items, bytes => .ok (items, bytes)
  | n + 1, items, bytes => do
    let (a, rest) ← f.read bytes
    readMany f n (items.push a) rest

def array (f : Format α) : Format (Array α) where
  write items := writeNat 8 items.size ++ items.toList.flatMap f.write
  read bytes := do
    let (n, rest) ← readNat 8 bytes
    readMany f n #[] rest

theorem size_of_readMany {f : Format α} {n : Nat} {items result : Array α} {bytes rest : List UInt8}
    (h : readMany f n items bytes = .ok (result, rest)) : result.size = items.size + n := by
  induction n generalizing items bytes with
  | zero => cases h; rfl
  | succ n ih =>
    unfold readMany at h
    cases hf : f.read bytes with
    | error e => rw [hf] at h; cases h
    | ok p =>
      rw [hf] at h
      have := ih h
      simp only [Array.size_push] at this
      omega

def vector (f : Format α) (n : Nat) : Format (Vector α n) where
  write items := items.toList.flatMap f.write
  read bytes :=
    match h : readMany f n #[] bytes with
    | .error e => .error e
    | .ok (items, rest) => .ok (⟨items, by simpa using size_of_readMany h⟩, rest)

def bytes : Format ByteArray where
  write data := writeNat 8 data.size ++ data.data.toList
  read bytes := do
    let (n, rest) ← readNat 8 bytes
    let taken := rest.take n
    if taken.length = n then return (taken.toByteArray, rest.drop n)
    throw .endOfData

def bool : Format Bool :=
  byte.filterMap
    (fun b ↦ if b = 0 then .ok false else if b = 1 then .ok true else .error (.badBool b.toNat))
    (·.toUInt8)

def option (f : Format α) : Format (Option α) where
  write
    | none => [0]
    | some a => 1 :: f.write a
  read
    | [] => .error .endOfData
    | tag :: rest =>
      if tag = 0 then .ok (none, rest)
      else if tag = 1 then do
        let (a, rest) ← f.read rest
        return (some a, rest)
      else .error (.badTag tag.toNat)

end Format

end SoundUnit
