import SoundUnit.Voice.SampleStream

namespace SoundUnit

structure Tape where
  block : UInt16
  offset : UInt16 := 1
  tail : UInt8 := 0
  /-- What was in the ring before, oldest first. Predictions look at its end. -/
  past : List Int16
  samples : List Int16 := []

namespace Tape

/-- The value `n` places before the newest one. -/
def back (t : Tape) (n : Nat) : Int16 := (t.past ++ t.samples).reverse.getD n 0

def restart (t : Tape) (block : UInt16) : Tape where
  block := block
  past := t.past

def append (t : Tape) (sample : Int16) : Tape := { t with samples := t.samples ++ [sample] }

def appendNybble (header : BlockHeader) (t : Tape) (nybble : Fin 16) : Tape :=
  t.append (header.sample nybble (t.back 0) (t.back 1))

def appendData (t : Tape) (ram : Ram) (header : BlockHeader) : Tape :=
  let addr := t.block + t.offset
  (Block.nybbles (ram.read addr) (ram.read (addr + 1))).foldl (appendNybble header) t

def advance (t : Tape) (header : BlockHeader) (loop : UInt16) : Tape × SampleStream.Event :=
  if t.offset + 2 < Block.size then ({ t with offset := t.offset + 2 }, .none)
  else if !header.last then ({ t with offset := 1, block := t.block + Block.size }, .none)
  else if header.loop then ({ t with offset := 1, block := loop }, .looped)
  else ({ t with offset := 1, block := loop, tail := SampleStream.groups }, .ended)

def decodeGroup (t : Tape) (ram : Ram) (loop : UInt16) : Tape × SampleStream.Event :=
  if t.tail = 1 then ({ t with tail := 0 }, .finished)
  else if 1 < t.tail then ([0, 0, 0, 0].foldl append { t with tail := t.tail - 1 }, .none)
  else
    let header := BlockHeader.ofByte (ram.read t.block)
    (t.appendData ram header).advance header loop

theorem back_append_zero (t : Tape) (sample : Int16) : (t.append sample).back 0 = sample := by
  unfold back append
  rw [← List.append_assoc, List.reverse_append]
  rfl

theorem back_append_succ (t : Tape) (sample : Int16) (n : Nat) : (t.append sample).back (n + 1) = t.back n := by
  unfold back append
  rw [← List.append_assoc, List.reverse_append]
  rfl

theorem back_eq (t : Tape) {n : Nat} (h : n < t.samples.length) :
    t.samples[t.samples.length - 1 - n]? = some (t.back n) := by
  have hr : n < t.samples.reverse.length := by
    rw [List.length_reverse]
    exact h
  unfold back
  rw [List.reverse_append, List.getD_eq_getElem?_getD, List.getElem?_append_left hr, List.getElem?_reverse h,
    List.getElem?_eq_getElem (by omega)]
  rfl

@[simp] theorem length_samples_append (t : Tape) (sample : Int16) :
    (t.append sample).samples.length = t.samples.length + 1 :=
  List.length_append

theorem length_samples_foldl {α : Type} {f : Tape → α → Tape}
    (hf : ∀ t a, (f t a).samples.length = t.samples.length + 1) (l : List α) (t : Tape) :
    (l.foldl f t).samples.length = t.samples.length + l.length := by
  induction l generalizing t with
  | nil => rfl
  | cons a l ih =>
    rw [List.foldl_cons, ih, hf, List.length_cons]
    omega

theorem length_samples_appendData (t : Tape) (ram : Ram) (header : BlockHeader) :
    (t.appendData ram header).samples.length = t.samples.length + 4 :=
  length_samples_foldl (fun t _ ↦ t.length_samples_append _) ..

theorem samples_advance (t : Tape) (header : BlockHeader) (loop : UInt16) :
    (t.advance header loop).1.samples = t.samples := by
  unfold advance
  split
  · rfl
  · split
    · rfl
    · split <;> rfl

theorem length_samples_decodeGroup (t : Tape) (ram : Ram) (loop : UInt16)
    (h : (t.decodeGroup ram loop).2 ≠ .finished) :
    (t.decodeGroup ram loop).1.samples.length = t.samples.length + 4 := by
  unfold decodeGroup at h ⊢
  by_cases h₁ : t.tail = 1
  · rw [if_pos h₁] at h
    exact absurd rfl h
  · rw [if_neg h₁]
    by_cases h₂ : 1 < t.tail
    · rw [if_pos h₂]
      exact length_samples_foldl length_samples_append [0, 0, 0, 0] { t with tail := t.tail - 1 }
    · rw [if_neg h₂]
      dsimp only
      rw [samples_advance, length_samples_appendData]

theorem decodeGroup_of_sounding {t : Tape} (ht : t.tail = 0) (ram : Ram) (loop : UInt16) :
    t.decodeGroup ram loop =
      (t.appendData ram (.ofByte (ram.read t.block))).advance (.ofByte (ram.read t.block)) loop := by
  unfold decodeGroup
  rw [ht]
  rfl

theorem offset_cases : ∀ g < 4, UInt16.ofNat (1 + 2 * g) + 2 = UInt16.ofNat (1 + 2 * (g + 1)) ∧
    (UInt16.ofNat (1 + 2 * g) + 2 < Block.size ↔ g ≠ 3) := by decide

theorem advance_of_lt {t : Tape} (h : t.offset + 2 < Block.size) (header : BlockHeader) (loop : UInt16) :
    t.advance header loop = ({ t with offset := t.offset + 2 }, .none) := if_pos h

end Tape

namespace SampleStream

/-- The stream is at the same place as the tape, and its ring holds the end of it. -/
structure Holds (s : SampleStream) (t : Tape) : Prop where
  block : s.block = t.block
  offset : s.offset = t.offset
  tail : s.tail = t.tail
  ring : ∀ n < 12, s.get n = t.back (11 - n)

namespace Holds

variable {s : SampleStream} {t : Tape}

theorem push (h : s.Holds t) (sample : Int16) : (s.push sample).Holds (t.append sample) where
  block := h.block
  offset := h.offset
  tail := h.tail
  ring n hn := by
    rcases Nat.lt_or_eq_of_le (Nat.le_of_lt_succ hn) with hlt | rfl
    · obtain ⟨k, hk⟩ : ∃ k, 11 - n = k + 1 := ⟨10 - n, by omega⟩
      have hk' : 11 - (n + 1) = k := by omega
      rw [get_push s sample hlt, h.ring (n + 1) (by omega), hk, hk', Tape.back_append_succ]
    · rw [get_push_newest, Nat.sub_self, Tape.back_append_zero]

theorem pushNybble (h : s.Holds t) (header : BlockHeader) (nybble : Fin 16) :
    (pushNybble header s nybble).Holds (t.appendNybble header nybble) := by
  unfold SampleStream.pushNybble Tape.appendNybble
  rw [h.ring 11 (by decide), h.ring 10 (by decide)]
  exact h.push _

theorem foldl {α : Type} {f : SampleStream → α → SampleStream} {g : Tape → α → Tape}
    (hf : ∀ {s t}, s.Holds t → ∀ a, (f s a).Holds (g t a)) (l : List α) (h : s.Holds t) :
    (l.foldl f s).Holds (l.foldl g t) := by
  induction l generalizing s t with
  | nil => exact h
  | cons a l ih => exact ih (hf h a)

theorem decodeData (h : s.Holds t) (ram : Ram) (header : BlockHeader) :
    (s.decodeData ram header).Holds (t.appendData ram header) := by
  unfold SampleStream.decodeData Tape.appendData
  rw [h.block, h.offset]
  exact h.foldl (fun h nybble ↦ h.pushNybble header nybble) _

theorem advance (h : s.Holds t) (header : BlockHeader) (loop : UInt16) :
    (s.advance header loop).1.Holds (t.advance header loop).1 ∧
      (s.advance header loop).2 = (t.advance header loop).2 := by
  unfold SampleStream.advance Tape.advance
  rw [h.offset]
  by_cases ho : t.offset + 2 < Block.size
  · rw [if_pos ho, if_pos ho]
    exact ⟨⟨h.block, rfl, h.tail, h.ring⟩, rfl⟩
  · rw [if_neg ho, if_neg ho]
    cases header.last
    · exact ⟨⟨congrArg (· + Block.size) h.block, rfl, h.tail, h.ring⟩, rfl⟩
    · cases header.loop
      · exact ⟨⟨rfl, rfl, rfl, h.ring⟩, rfl⟩
      · exact ⟨⟨rfl, rfl, h.tail, h.ring⟩, rfl⟩

/-- The ring is a window on the tape: it decodes what the tape decodes. -/
theorem decodeGroup (h : s.Holds t) (ram : Ram) (loop : UInt16) :
    (s.decodeGroup ram loop).1.Holds (t.decodeGroup ram loop).1 ∧
      (s.decodeGroup ram loop).2 = (t.decodeGroup ram loop).2 := by
  unfold SampleStream.decodeGroup Tape.decodeGroup
  by_cases h₁ : t.tail = 1
  · have h₁' : s.tail = 1 := h.tail.trans h₁
    rw [if_pos h₁, if_pos h₁']
    exact ⟨⟨h.block, h.offset, rfl, h.ring⟩, rfl⟩
  · have h₁' : s.tail ≠ 1 := fun e ↦ h₁ (h.tail.symm.trans e)
    rw [if_neg h₁, if_neg h₁']
    by_cases h₂ : 1 < t.tail
    · have h₂' : 1 < s.tail := h.tail ▸ h₂
      have hs : Holds { s with tail := s.tail - 1 } { t with tail := t.tail - 1 } :=
        ⟨h.block, h.offset, congrArg (· - 1) h.tail, h.ring⟩
      rw [if_pos h₂, if_pos h₂']
      exact ⟨(((hs.push 0).push 0).push 0).push 0, rfl⟩
    · have h₂' : ¬ 1 < s.tail := h.tail ▸ h₂
      rw [if_neg h₂, if_neg h₂', h.block]
      exact (h.decodeData ram _).advance _ loop

end Holds

theorem holds_restart (s : SampleStream) (start : UInt16) (block : UInt16) :
    (s.restart start).Holds (Tape.restart { block, past := s.ring.toList } start) where
  block := rfl
  offset := rfl
  tail := rfl
  ring n hn := by
    have hr : 11 - n < s.ring.toList.reverse.length := by
      rw [List.length_reverse, Vector.length_toList]
      omega
    have hi : s.ring.toList.length - 1 - (11 - n) = n := by
      rw [Vector.length_toList]
      omega
    unfold Tape.back Tape.restart
    rw [List.append_nil, List.getD_eq_getElem?_getD, List.getElem?_eq_getElem hr, Option.getD_some,
      List.getElem_reverse]
    simp only [hi, Vector.getElem_toList]
    simp only [SampleStream.get, SampleStream.restart, Fin.getElem_fin, Fin.ofNat, Nat.zero_add, Nat.mod_eq_of_lt hn]

end SampleStream

end SoundUnit
