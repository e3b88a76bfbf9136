import SoundUnit.Proofs.Checked.Arithmetic
import SoundUnit.Voice.Interpolation
import SoundUnit.Voice.SampleStream

namespace SoundUnit

open Checked

namespace BlockHeader

def scale? (h : BlockHeader) (nybble : Fin 16) : Option Int :=
  let signed : Int := if nybble.val < 8 then nybble.val else nybble.val - 16
  if h.range.val ≤ 12 then do
    let amount ← below 32 h.range.val
    let x ← long (signed <<< amount)
    return x / 2
  else some (if signed < 0 then -2048 else 0)

def sum? (h : BlockHeader) (s last older : Int) : Option Int := do
  let older := older / 2
  match h.filter with
  | 0 => return s
  | 1 =>
    let s ← long (s + last / 2)
    let negated ← long (-last)
    long (s + negated / 32)
  | 2 =>
    let d ← long (last - older)
    let s ← long (s + d)
    let s ← long (s + older / 16)
    let p ← long (last * -3)
    long (s + p / 64)
  | 3 =>
    let d ← long (last - older)
    let s ← long (s + d)
    let p ← long (last * -13)
    let s ← long (s + p / 128)
    let q ← long (older * 3)
    long (s + q / 16)

def sample? (h : BlockHeader) (nybble : Fin 16) (last older : Int16) : Option Int16 := do
  let s ← h.scale? nybble
  let s ← h.sum? s last.toInt older.toInt
  let doubled ← long (2 * Sample.clamp s)
  return Int16.ofInt doubled

theorem shift_bounds : ∀ range nybble : Fin 16, range.val ≤ 12 →
    -32768 ≤ (if nybble.val < 8 then (nybble.val : Int) else nybble.val - 16) <<< range.val ∧
      (if nybble.val < 8 then (nybble.val : Int) else nybble.val - 16) <<< range.val ≤ 32767 := by decide +kernel

theorem scale?_eq (h : BlockHeader) (nybble : Fin 16) : h.scale? nybble = some (h.scale nybble) := by
  unfold scale? scale
  dsimp only
  split
  next hr =>
    have hb := shift_bounds h.range nybble hr
    rw [below_of (by omega)]
    simp only [Option.bind_eq_bind, Option.bind_some]
    rw [long_of (by omega)]
    rfl
  next => rfl

theorem scale_bounds (h : BlockHeader) (nybble : Fin 16) : -16384 ≤ h.scale nybble ∧ h.scale nybble ≤ 16383 := by
  unfold scale
  dsimp only
  split
  next hr =>
    have hb := shift_bounds h.range nybble hr
    omega
  next => split <;> omega

theorem sum?_eq (h : BlockHeader) {s last older : Int} (hs : -16384 ≤ s ∧ s ≤ 16383)
    (hl : -32768 ≤ last ∧ last ≤ 32767) (ho : -32768 ≤ older ∧ older ≤ 32767) :
    h.sum? s last older = some (s + h.predict last older) := by
  have hf : h.filter = 0 ∨ h.filter = 1 ∨ h.filter = 2 ∨ h.filter = 3 := by omega
  unfold sum? predict
  rcases hf with hf | hf | hf | hf
  all_goals
    simp (disch := omega) only [hf, long_of, Option.bind_eq_bind, Option.bind_some, Option.pure_def, Option.some_inj]
    omega

theorem sample?_eq (h : BlockHeader) (nybble : Fin 16) (last older : Int16) :
    h.sample? nybble last older = some (h.sample nybble last older) := by
  have hs := h.sum?_eq (h.scale_bounds nybble) (int16_bounds last) (int16_bounds older)
  have hd : long (2 * Sample.clamp (h.scale nybble + h.predict last.toInt older.toInt)) =
      some (2 * Sample.clamp (h.scale nybble + h.predict last.toInt older.toInt)) := by
    refine long_of ?_
    unfold Sample.clamp
    omega
  unfold sample?
  simp only [scale?_eq, hs, hd, Option.bind_eq_bind, Option.bind_some]
  rfl

end BlockHeader

namespace SampleStream

def get? (s : SampleStream) (n : Nat) : Option Int16 := do
  let i ← below sizeBound (s.position + n)
  s.ring[i % 12]?

def push? (s : SampleStream) (sample : Int16) : Option SampleStream := do
  let _ ← s.ring[s.position % 12]?
  let next ← below sizeBound (s.position + 1)
  return { s with ring := s.ring.setIfInBounds (s.position % 12) sample, position := next % 12 }

def pushNybble? (header : BlockHeader) (s : SampleStream) (nybble : Fin 16) : Option SampleStream := do
  let last ← s.get? 11
  let older ← s.get? 10
  let sample ← header.sample? nybble last older
  s.push? sample

def decodeData? (s : SampleStream) (ram : Ram) (header : BlockHeader) : Option SampleStream := do
  let addr := s.block + s.offset
  let first ← ram.read? addr
  let second ← ram.read? (addr + 1)
  (Block.nybbles first second).foldlM (pushNybble? header) s

def advance? (s : SampleStream) (header : BlockHeader) (loop : UInt16) : Option (SampleStream × Event) := do
  let offset ← below wordBound (s.offset.toNat + 2)
  return if offset < 9 then ({ s with offset := UInt16.ofNat offset }, .none)
    else if !header.last then ({ s with offset := 1, block := s.block + Block.size }, .none)
    else if header.loop then ({ s with offset := 1, block := loop }, .looped)
    else ({ s with offset := 1, block := loop, tail := groups }, .ended)

def decodeGroup? (s : SampleStream) (ram : Ram) (loop : UInt16) : Option (SampleStream × Event) :=
  if 0 < s.tail then do
    let tail ← difference s.tail.toNat 1
    let s := { s with tail := UInt8.ofNat tail }
    if tail = 0 then return (s, .finished)
    else return (← [0, 0, 0, 0].foldlM push? s, .none)
  else do
    let header := BlockHeader.ofByte (← ram.read? s.block)
    (← s.decodeData? ram header).advance? header loop

variable {s : SampleStream}

theorem get?_eq (h : s.position < 12) {n : Nat} (hn : n < 12) : s.get? n = some (s.get n) := by
  unfold get?
  rw [below_of (by unfold sizeBound; omega)]
  exact Vector.getElem?_eq_getElem (Nat.mod_lt _ (by decide))

theorem push?_eq (h : s.position < 12) (sample : Int16) :
    s.push? sample = some (s.push sample) ∧ (s.push sample).position < 12 := by
  have hi : s.position % 12 < 12 := Nat.mod_lt _ (by decide)
  have hr : s.ring.setIfInBounds (s.position % 12) sample = s.ring.set (s.position % 12) sample hi := by
    refine Vector.ext fun i _ ↦ ?_
    rw [Vector.getElem_setIfInBounds, Vector.getElem_set]
  refine ⟨?_, Nat.mod_lt _ (by decide)⟩
  unfold push?
  rw [Vector.getElem?_eq_getElem hi, below_of (by unfold sizeBound; omega), hr]
  rfl

theorem pushNybble?_eq (header : BlockHeader) (h : s.position < 12) (nybble : Fin 16) :
    pushNybble? header s nybble = some (pushNybble header s nybble) ∧ (pushNybble header s nybble).position < 12 := by
  have hg₁₁ := get?_eq h (n := 11) (by decide)
  have hg₁₀ := get?_eq h (n := 10) (by decide)
  obtain ⟨hp, hlt⟩ := push?_eq h (header.sample nybble (s.get 11) (s.get 10))
  refine ⟨?_, hlt⟩
  unfold pushNybble?
  simp only [hg₁₁, hg₁₀, BlockHeader.sample?_eq, hp, Option.bind_eq_bind, Option.bind_some]
  rfl

theorem decodeData?_eq (h : s.position < 12) (ram : Ram) (header : BlockHeader) :
    s.decodeData? ram header = some (s.decodeData ram header) := by
  have hf (l : List (Fin 16)) : l.foldlM (pushNybble? header) s = some (l.foldl (pushNybble header) s) :=
    (foldlM_of (P := fun s ↦ s.position < 12) (fun _ nybble h ↦ pushNybble?_eq header h nybble) l h).1
  unfold decodeData?
  simp only [Ram.read?_eq, hf, Option.bind_eq_bind, Option.bind_some]
  rfl

theorem advance?_eq (h : s.offset < Block.size) (header : BlockHeader) (loop : UInt16) :
    s.advance? header loop = some (s.advance header loop) := by
  have hlt : s.offset.toNat < 9 := h
  have ho : UInt16.ofNat (s.offset.toNat + 2) = s.offset + 2 := by
    rw [UInt16.ofNat_add, UInt16.ofNat_toNat]
    rfl
  have hs : s.offset.toNat + 2 < 9 ↔ s.offset + 2 < Block.size := by
    rw [UInt16.lt_iff_toNat_lt, UInt16.toNat_add]
    change s.offset.toNat + 2 < 9 ↔ (s.offset.toNat + 2) % 65536 < 9
    omega
  unfold advance? advance
  rw [below_of (by unfold wordBound; omega)]
  simp only [ho, hs, Option.bind_eq_bind, Option.bind_some]
  rfl

theorem tail_cases (tail : UInt8) : ¬ 0 < tail ∧ tail = 0 ∨ tail = 1 ∨
    0 < tail ∧ 1 < tail ∧ 1 < tail.toNat ∧ UInt8.ofNat (tail.toNat - 1) = tail - 1 := by
  simp only [UInt8.lt_iff_toNat_lt, ← UInt8.toNat_inj, UInt8.toNat_ofNat', UInt8.toNat_sub]
  have := tail.toNat_lt
  change ¬ 0 < tail.toNat ∧ tail.toNat = 0 ∨ tail.toNat = 1 ∨ 0 < tail.toNat ∧ 1 < tail.toNat ∧ 1 < tail.toNat ∧
    (tail.toNat - 1) % 256 = (256 - 1 + tail.toNat) % 256
  omega

theorem decodeGroup?_eq (h : s.Valid) (ram : Ram) (loop : UInt16) :
    s.decodeGroup? ram loop = some (s.decodeGroup ram loop) := by
  obtain ⟨hp, -, -, ho, -⟩ := h
  unfold decodeGroup? decodeGroup
  rcases tail_cases s.tail with ⟨hpos, h₀⟩ | h₁ | ⟨hpos, h₂, hlt, ht⟩
  · have hd := decodeData?_eq hp ram (.ofByte (ram.read s.block))
    have ha := advance?_eq (s := s.decodeData ram (.ofByte (ram.read s.block))) ho (.ofByte (ram.read s.block)) loop
    rw [if_neg hpos, h₀]
    simp only [Ram.read?_eq, hd, Option.bind_eq_bind, Option.bind_some]
    exact ha
  · rw [h₁]
    rfl
  · have hz (s : SampleStream) (h : s.position < 12) :
        [0, 0, 0, 0].foldlM push? s = some ([0, 0, 0, 0].foldl push s) :=
      (foldlM_of (P := fun s ↦ s.position < 12) (fun _ sample h ↦ push?_eq h sample) _ h).1
    have hne : s.tail ≠ 1 := fun e ↦ absurd h₂ (by rw [e]; decide)
    rw [if_pos hpos, if_neg hne, if_pos h₂, difference_of (by omega)]
    simp only [Option.bind_eq_bind, Option.bind_some]
    rw [if_neg (by omega), ht, hz { s with tail := s.tail - 1 } hp]
    rfl

end SampleStream

theorem Sample.wrap_bounds (x : Int) : -32768 ≤ wrap x ∧ wrap x ≤ 32767 := by
  unfold wrap
  rw [Int.bmod_def]
  omega

namespace Interpolation

def weights : Vector Nat 512 := footWeights ++ shoulderWeights

def interpolate? (phase : Nat) (a b c d : Int) : Option Int := do
  let w ← weights[← difference 255 phase]?
  let x ← weights[← difference 511 phase]?
  let y ← weights[256 + phase]?
  let z ← weights[phase]?
  let first ← long (w * a)
  let second ← long (x * b)
  let third ← long (y * c)
  let fourth ← long (z * d)
  let sum ← long (first / 2048 + second / 2048)
  let sum ← long (sum + third / 2048)
  let total ← long (Sample.wrap sum + fourth / 2048)
  return Sample.even (Sample.clamp total)

theorem all_weights_le : footWeights.toList.all (· ≤ 1305) ∧ shoulderWeights.toList.all (· ≤ 1305) := by decide +kernel

theorem weights_le {i : Nat} (h : i < 256) : footWeights[i] ≤ 1305 ∧ shoulderWeights[i] ≤ 1305 := by
  obtain ⟨hf, hs⟩ := all_weights_le
  rw [List.all_eq_true] at hf hs
  have hf' := hf _ (Vector.mem_toList_iff.2 (Vector.getElem_mem h))
  have hs' := hs _ (Vector.mem_toList_iff.2 (Vector.getElem_mem h))
  exact ⟨of_decide_eq_true hf', of_decide_eq_true hs'⟩

theorem weights_lower {i : Nat} (h : i < 256) : weights[i]? = some footWeights[i] := by
  unfold weights
  rw [Vector.getElem?_append_left h, Vector.getElem?_eq_getElem h]

theorem weights_upper {i : Nat} (h : i < 256) : weights[256 + i]? = some shoulderWeights[i] := by
  unfold weights
  rw [Vector.getElem?_append_right (Nat.le_add_right ..), Nat.add_sub_cancel_left, Vector.getElem?_eq_getElem h]

theorem weighted_bounds {w : Nat} (hw : w ≤ 1305) {x : Int} (hx : -32768 ≤ x ∧ x ≤ 32767) :
    -42762240 ≤ w * x ∧ w * x ≤ 42762240 :=
  mul_bounds (a := 1305) (b := 32768) (by omega) (by omega)

theorem interpolate?_eq (phase : Fin 256) {a b c d : Int} (ha : -32768 ≤ a ∧ a ≤ 32767) (hb : -32768 ≤ b ∧ b ≤ 32767)
    (hc : -32768 ≤ c ∧ c ≤ 32767) (hd : -32768 ≤ d ∧ d ≤ 32767) :
    interpolate? phase a b c d = some (interpolate phase a b c d) := by
  obtain ⟨p, hp⟩ := phase
  have hq : 255 - p < 256 := by omega
  have hu : 511 - p = 256 + (255 - p) := by omega
  have h₁ := weighted_bounds (weights_le hq).1 ha
  have h₂ := weighted_bounds (weights_le hq).2 hb
  have h₃ := weighted_bounds (weights_le hp).2 hc
  have h₄ := weighted_bounds (weights_le hp).1 hd
  unfold interpolate? interpolate weigh
  dsimp only
  rw [difference_of (by omega), difference_of (by omega), hu]
  simp only [Option.bind_eq_bind, Option.bind_some, weights_lower hq, weights_upper hq, weights_lower hp,
    weights_upper hp, Fin.getElem_fin]
  have hw := Sample.wrap_bounds (footWeights[255 - p] * a / 2048 + shoulderWeights[255 - p] * b / 2048 +
    shoulderWeights[p] * c / 2048)
  simp (disch := omega) only [long_of, Option.bind_some, Option.pure_def]

end Interpolation

end SoundUnit
