import SoundUnit.Machine.Samples

namespace SoundUnit

namespace Samples

variable (s : Samples)

def count : Nat := min s.remaining (s.machine.output.size - s.taken)

theorem sizeHint_eq : s.sizeHint = (s.count, some s.count) := rfl

def front (n : Nat) : Array Frame := s.machine.output.extract s.taken (s.taken + n)

def past (n : Nat) : Samples := { s with taken := s.taken + n, remaining := s.remaining - n }

theorem front_zero : s.front 0 = #[] := Array.extract_eq_empty_of_le (Nat.min_le_left ..)

theorem past_zero : s.past 0 = s := rfl

theorem past_past (m n : Nat) : (s.past m).past n = s.past (m + n) := by
  simp only [past, Nat.add_assoc, Nat.sub_sub]

theorem count_past (n : Nat) : (s.past n).count = s.count - n := by
  simp only [count, past]
  omega

theorem front_append (m n : Nat) : s.front m ++ (s.past m).front n = s.front (m + n) := by
  simp only [front, past]
  rw [Array.extract_append_extract, Nat.min_eq_left (by omega), Nat.max_eq_right (by omega), Nat.add_assoc]

theorem size_front {n : Nat} (h : n ≤ s.count) : (s.front n).size = n := by
  unfold count at h
  unfold front
  rw [Array.size_extract]
  omega

variable {s}

theorem next_of_count_eq_zero (h : s.count = 0) : s.next = none := by
  unfold count at h
  unfold next
  split
  · rfl
  · have hs : s.machine.output.size ≤ s.taken := by omega
    rw [Array.getElem?_eq_none hs]
    rfl

theorem next_of_count_pos (h : 0 < s.count) : ∃ frame, s.front 1 = #[frame] ∧ s.next = some (frame, s.past 1) := by
  unfold count at h
  have hs : s.taken < s.machine.output.size := by omega
  refine ⟨s.machine.output[s.taken], ?_, ?_⟩
  · have hp := Array.push_extract_getElem (i := s.taken) hs
    rw [Array.extract_eq_empty_of_le (Nat.min_le_left ..), Nat.min_self] at hp
    exact hp.symm
  · unfold next
    rw [if_neg (by omega), Array.getElem?_eq_getElem hs]
    rfl

variable (s)

theorem take_eq (n : Nat) (frames : Array Frame) :
    take n s frames = (frames ++ s.front (min n s.count), s.past (min n s.count)) := by
  induction n generalizing s frames with
  | zero => rw [take, Nat.zero_min, front_zero, past_zero, Array.append_empty]
  | succ n ih =>
    rcases Nat.eq_zero_or_pos s.count with h | h
    · rw [take, next_of_count_eq_zero h, h, Nat.min_zero, front_zero, past_zero, Array.append_empty]
    · obtain ⟨frame, hf, hn⟩ := next_of_count_pos h
      have hm : min (n + 1) s.count = 1 + min n (s.past 1).count := by
        rw [count_past]
        omega
      rw [take, hn, hm, ← front_append, ← past_past, hf, ← Array.append_assoc, Array.append_singleton]
      exact ih _ _

theorem drain_eq (frames : Array Frame) : s.drain frames = (frames ++ s.front s.count, s.past s.count) := by
  generalize hc : s.count = n
  induction n generalizing s frames with
  | zero =>
    rw [drain, front_zero, past_zero, Array.append_empty]
    split
    next => rfl
    next frame next hn => cases hn.symm.trans (next_of_count_eq_zero hc)
  | succ n ih =>
    obtain ⟨frame, hf, hn⟩ := next_of_count_pos (s := s) (by omega)
    rw [drain, Nat.add_comm, ← front_append, ← past_past, hf, ← Array.append_assoc, Array.append_singleton]
    split
    next hn' => cases hn'.symm.trans hn
    next frame' next hn' =>
      cases hn'.symm.trans hn
      refine ih _ _ ?_
      rw [count_past]
      omega

theorem close_past (n : Nat) :
    (s.past n).close =
      { s.machine with output := s.machine.output.extract (s.taken + n) s.machine.output.size } := rfl

end Samples

namespace Machine

theorem count_samples (m : Machine) (limit : Nat) : (m.samples limit).count = min limit m.available := rfl

theorem read_eq_drain (m : Machine) (limit : Nat) :
    m.read limit = (((m.samples limit).drain #[]).1, ((m.samples limit).drain #[]).2.close) := by
  have he : m.output.extract 0 limit = m.output.extract 0 (0 + min limit m.output.size) := by
    rw [Nat.zero_add]
    rcases Nat.le_total limit m.output.size with h | h
    · rw [Nat.min_eq_left h]
    · rw [Nat.min_eq_right h, Array.extract_eq_self_of_le h, Array.extract_size]
  have hr : m.output.extract limit m.output.size =
      m.output.extract (0 + min limit m.output.size) m.output.size := by
    rw [Nat.zero_add]
    rcases Nat.le_total limit m.output.size with h | h
    · rw [Nat.min_eq_left h]
    · rw [Nat.min_eq_right h, Array.extract_eq_empty_of_le (Nat.min_le_right ..),
        Array.extract_eq_empty_of_le (Nat.le_trans (Nat.min_le_right ..) h)]
  rw [Samples.drain_eq, count_samples, Samples.close_past, Array.empty_append]
  unfold read
  rw [he, hr]
  rfl

end Machine

end SoundUnit
