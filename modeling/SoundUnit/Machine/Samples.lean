import SoundUnit.Machine.Basic

namespace SoundUnit

structure Samples where
  machine : Machine
  /-- Samples taken from the front of the output queue. -/
  taken : Nat := 0
  /-- Samples that may still be taken. -/
  remaining : Nat

def Machine.samples (m : Machine) (limit : Nat) : Samples where
  machine := m
  remaining := limit

namespace Samples

/-- Bounds of the number of samples that are still to come. -/
def sizeHint (s : Samples) : Nat × Option Nat :=
  let n := min s.remaining (s.machine.output.size - s.taken)
  (n, some n)

def next (s : Samples) : Option (Frame × Samples) :=
  if s.remaining = 0 then none
  else
    s.machine.output[s.taken]?.map fun frame ↦
      (frame, { s with taken := s.taken + 1, remaining := s.remaining - 1 })

theorem remaining_next {s s' : Samples} {frame : Frame} (h : s.next = some (frame, s')) :
    s'.remaining < s.remaining := by
  unfold next at h
  split at h
  · cases h
  · obtain ⟨_, -, h⟩ := Option.map_eq_some_iff.1 h
    cases h
    dsimp only
    omega

/-- Takes up to `n` samples and puts them behind `frames`. -/
def take : Nat → Samples → Array Frame → Array Frame × Samples
  | 0, s, frames => (frames, s)
  | n + 1, s, frames =>
    match s.next with
    | none => (frames, s)
    | some (frame, s) => take n s (frames.push frame)

def drain (s : Samples) (frames : Array Frame) : Array Frame × Samples :=
  match h : s.next with
  | none => (frames, s)
  | some (frame, next) =>
    have := remaining_next h
    next.drain (frames.push frame)
termination_by s.remaining

def close (s : Samples) : Machine :=
  { s.machine with output := s.machine.output.extract s.taken s.machine.output.size }

end Samples

end SoundUnit
