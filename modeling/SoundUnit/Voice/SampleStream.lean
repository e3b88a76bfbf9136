import SoundUnit.Memory.Ram
import SoundUnit.Voice.Block

namespace SoundUnit

/-- Samples are decoded four at a time into a ring of twelve, where a group replaces the oldest four. -/
structure SampleStream where
  block : UInt16 := 0
  /-- Where in the block the next two data bytes are. -/
  offset : UInt16 := 1
  ring : Vector Int16 12 := Vector.replicate 12 0
  /-- The index of the oldest sample. -/
  position : Nat := 0
  /-- Groups still to come after the end of the sample; zero while there is no end in sight. -/
  tail : UInt8 := 0
deriving DecidableEq

namespace SampleStream

inductive Event where
  | none
  /-- The last block is complete and playback goes on at the loop address. -/
  | looped
  /-- The last block is complete; what the ring holds is still to be played. -/
  | ended
  | finished
deriving DecidableEq

def groups : UInt8 := 3

/-- Starts at a block. The samples in the ring stay, as the past that predictions look at. -/
def restart (s : SampleStream) (block : UInt16) : SampleStream :=
  { s with block, offset := 1, position := 0, tail := 0 }

def get (s : SampleStream) (n : Nat) : Int16 :=
  s.ring[Fin.ofNat 12 (s.position + n)]

def push (s : SampleStream) (sample : Int16) : SampleStream :=
  { s with
    ring := s.ring.set (Fin.ofNat 12 s.position) sample
    position := (s.position + 1) % 12 }

theorem get_push_newest (s : SampleStream) (sample : Int16) : (s.push sample).get 11 = sample := by
  simp [get, push, Fin.getElem_fin, Fin.ofNat, Nat.add_assoc]

theorem get_push (s : SampleStream) (sample : Int16) {n : Nat} (h : n < 11) :
    (s.push sample).get n = s.get (n + 1) := by
  have ne : s.position % 12 ≠ (s.position + (n + 1)) % 12 := by omega
  have e : ((s.position + 1) % 12 + n) % 12 = (s.position + (n + 1)) % 12 := by omega
  simp only [get, push, Fin.getElem_fin, Fin.ofNat, Vector.getElem_set, e, if_neg ne]

def pushNybble (header : BlockHeader) (s : SampleStream) (nybble : Fin 16) : SampleStream :=
  s.push (header.sample nybble (s.get 11) (s.get 10))

def decodeData (s : SampleStream) (ram : Ram) (header : BlockHeader) : SampleStream :=
  let addr := s.block + s.offset
  (Block.nybbles (ram.read addr) (ram.read (addr + 1))).foldl (pushNybble header) s

def advance (s : SampleStream) (header : BlockHeader) (loop : UInt16) : SampleStream × Event :=
  if s.offset + 2 < Block.size then ({ s with offset := s.offset + 2 }, .none)
  else if !header.last then ({ s with offset := 1, block := s.block + Block.size }, .none)
  else if header.loop then ({ s with offset := 1, block := loop }, .looped)
  else ({ s with offset := 1, block := loop, tail := groups }, .ended)

/-- The next group: silence once the sample has ended, else four samples from memory. -/
def decodeGroup (s : SampleStream) (ram : Ram) (loop : UInt16) : SampleStream × Event :=
  if s.tail = 1 then ({ s with tail := 0 }, .finished)
  else if 1 < s.tail then
    (((({ s with tail := s.tail - 1 }.push 0).push 0).push 0).push 0, .none)
  else
    let header := BlockHeader.ofByte (ram.read s.block)
    (s.decodeData ram header).advance header loop

def Valid (s : SampleStream) : Prop :=
  s.position < 12 ∧ s.position % 4 = 0 ∧ s.offset % 2 = 1 ∧ s.offset < Block.size ∧ s.tail ≤ groups

instance (s : SampleStream) : Decidable s.Valid :=
  inferInstanceAs (Decidable (_ ∧ _ ∧ _ ∧ _ ∧ _))

end SampleStream

end SoundUnit
