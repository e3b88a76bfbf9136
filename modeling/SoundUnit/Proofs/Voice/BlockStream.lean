import SoundUnit.Proofs.Voice.Tape

namespace SoundUnit

/-- What a stream of samples is decoded from. -/
structure BlockSource where
  ram : Ram
  start : UInt16
  /-- Where each call of the decoder goes on if it comes to the end of the sample. -/
  loops : Nat → UInt16
  /-- The two samples before the first one, the newer one first. -/
  before : Int16 × Int16

namespace BlockSource

variable (src : BlockSource)

def header (block : UInt16) : BlockHeader where
  range := Fin.ofNat 16 ((src.ram.read block).toNat / 16)
  filter := Fin.ofNat 4 ((src.ram.read block).toNat / 4)
  loop := decide ((src.ram.read block).toNat / 2 % 2 = 1)
  last := decide ((src.ram.read block).toNat % 2 = 1)

/-- The block after block number `b`. The call that completes block `b` is number `4 * b + 3`. -/
def following (b : Nat) (block : UInt16) : Option UInt16 :=
  if !(src.header block).last then some (block + Block.size)
  else if (src.header block).loop then some (src.loops (4 * b + 3))
  else none

/-- The address of a block, if the sample has not ended before it. -/
def blockAt : Nat → Option UInt16
  | 0 => some src.start
  | b + 1 => (blockAt b).bind (src.following b)

def nybble (block : UInt16) (i : Nat) : Fin 16 :=
  let byte := src.ram.read (block + 1 + UInt16.ofNat (i / 2))
  Fin.ofNat 16 (if i % 2 = 0 then byte >>> 4 else byte).toNat

/-- Twice the clamped sum of a scaled nybble and a prediction from the last two samples. All quotients are rounded
down. -/
def expand (h : BlockHeader) (nybble : Fin 16) (last older : Int) : Int :=
  let signed : Int := if nybble.val < 8 then nybble.val else nybble.val - 16
  let scaled : Int :=
    if h.range.val ≤ 12 then (signed <<< h.range.val) / 2
    else if signed < 0 then -2048
    else 0
  let predicted : Int := match h.filter with
    | 0 => 0
    | 1 => last / 2 + -last / 32
    | 2 => last - older / 2 + older / 2 / 16 + -3 * last / 64
    | 3 => last - older / 2 + -13 * last / 128 + 3 * (older / 2) / 16
  2 * min 32767 (max (-32768) (scaled + predicted))

/-- Sample `n` after the two before it, the newer one first. After the end there is silence. -/
def next (n : Nat) (last : Int16 × Int16) : Int16 :=
  match src.blockAt (n / 16) with
  | some block => Int16.ofInt (expand (src.header block) (src.nybble block (n % 16)) last.1.toInt last.2.toInt)
  | none => 0

def recent : Nat → Int16 × Int16
  | 0 => src.before
  | n + 1 => (src.next n (recent n), (recent n).1)

def sample (n : Nat) : Int16 := src.next n (src.recent n)

def samples (n : Nat) : List Int16 := (List.range n).map src.sample

/-- Block number `b` is the last one of the sample, and playback goes on at the loop address or does not. -/
def Closes (b : Nat) (loop : Bool) : Prop :=
  ∃ block, src.blockAt b = some block ∧ (src.header block).last = true ∧ (src.header block).loop = loop

variable {src}

theorem header_eq (block : UInt16) : src.header block = .ofByte (src.ram.read block) := by
  generalize hb : src.ram.read block = b
  have hr : (b >>> 4).toNat = b.toNat / 16 := Bit.toNat_shiftRight b (by decide) rfl
  have hf : (b >>> 2).toNat = b.toNat / 4 := Bit.toNat_shiftRight b (by decide) rfl
  have hl : Bit.test b 1 = decide (b.toNat / 2 % 2 = 1) :=
    (Bit.test_eq_testBit b 1).trans Nat.testBit_eq_decide_div_mod_eq
  have he : Bit.test b 0 = decide (b.toNat % 2 = 1) := Bit.test_low b
  unfold header BlockHeader.ofByte
  rw [hb, hr, hf, hl, he]

theorem sample_eq (h : BlockHeader) (nybble : Fin 16) (last older : Int16) :
    h.sample nybble last older = Int16.ofInt (expand h nybble last.toInt older.toInt) := by
  unfold BlockHeader.sample BlockHeader.scale BlockHeader.predict Sample.clamp expand
  dsimp only
  rewrite [Int.mul_comm (-3), Int.mul_comm (-13), Int.mul_comm 3]
  rfl

theorem sample_of_block {n : Nat} {block : UInt16} (h : src.blockAt (n / 16) = some block) :
    src.sample n = (src.header block).sample (src.nybble block (n % 16)) (src.recent n).1
      (src.recent n).2 := by
  unfold sample next
  rw [h, sample_eq]

theorem sample_of_none {n : Nat} (h : src.blockAt (n / 16) = none) :
    src.sample n = 0 := by
  unfold sample next
  rw [h]

theorem closes_iff {b : Nat} {block : UInt16} (h : src.blockAt b = some block) (loop : Bool) :
    src.Closes b loop ↔ (src.header block).last = true ∧ (src.header block).loop = loop := by
  constructor
  · rintro ⟨block', h', hl⟩
    rw [h, Option.some_inj] at h'
    exact h' ▸ hl
  · exact fun hl ↦ ⟨block, h, hl⟩

theorem not_closes {b : Nat} (h : src.blockAt b = none) (loop : Bool) : ¬ src.Closes b loop := by
  rintro ⟨block, h', -⟩
  rw [h] at h'
  exact nomatch h'

theorem blockAt_succ_of_closes {b : Nat} (h : src.Closes b false) : src.blockAt (b + 1) = none := by
  obtain ⟨block, hb, hl, hn⟩ := h
  rw [blockAt, hb, Option.bind_some, following, hl, hn]
  rfl

theorem nybble_even (block : UInt16) (j : Nat) :
    src.nybble block (2 * j) = Fin.ofNat 16 (src.ram.read (block + 1 + UInt16.ofNat j) >>> 4).toNat := by
  have hj : 2 * j / 2 = j := by omega
  unfold nybble
  dsimp only
  rw [if_pos (Nat.mul_mod_right 2 j), hj]

theorem nybble_odd (block : UInt16) (j : Nat) :
    src.nybble block (2 * j + 1) = Fin.ofNat 16 (src.ram.read (block + 1 + UInt16.ofNat j)).toNat := by
  have hj : (2 * j + 1) / 2 = j := by omega
  unfold nybble
  dsimp only
  rw [if_neg (by omega), hj]

theorem nybbles_eq (block : UInt16) (g : Nat) :
    Block.nybbles (src.ram.read (block + UInt16.ofNat (1 + 2 * g)))
        (src.ram.read (block + UInt16.ofNat (1 + 2 * g) + 1)) =
      (List.range 4).map fun i ↦ src.nybble block (4 * g + i) := by
  have h₀ : 4 * g = 2 * (2 * g) := by omega
  have h₁ : block + UInt16.ofNat (1 + 2 * g) = block + 1 + UInt16.ofNat (2 * g) := by
    rw [UInt16.ofNat_add, ← UInt16.add_assoc]
    rfl
  have h₂ : block + 1 + UInt16.ofNat (2 * g) + 1 = block + 1 + UInt16.ofNat (2 * g + 1) := by
    rw [UInt16.ofNat_add, ← UInt16.add_assoc]
    rfl
  rw [h₀, h₁, h₂]
  change _ = [src.nybble block (2 * (2 * g)), src.nybble block (2 * (2 * g) + 1), src.nybble block (2 * (2 * g + 1)),
    src.nybble block (2 * (2 * g + 1) + 1)]
  rw [nybble_even, nybble_odd, nybble_even, nybble_odd]
  rfl

end BlockSource

namespace Tape

/-- The tape has decoded the first `n` samples. -/
structure Reads (t : Tape) (src : BlockSource) (past : List Int16) (n : Nat) : Prop where
  past : t.past = past
  samples : t.samples = src.samples n
  recent : (t.back 0, t.back 1) = src.recent n

namespace Reads

variable {t : Tape} {src : BlockSource} {past : List Int16} {n : Nat}

theorem append (h : t.Reads src past n) {sample : Int16} (hs : sample = src.sample n) :
    (t.append sample).Reads src past (n + 1) where
  past := h.past
  samples := by
    have hm : src.samples (n + 1) = src.samples n ++ [src.sample n] := by
      unfold BlockSource.samples
      rw [List.range_succ, List.map_append, List.map_singleton]
    rw [hm, ← h.samples, ← hs]
    rfl
  recent := by
    rw [back_append_zero, back_append_succ, hs, BlockSource.recent, ← h.recent, BlockSource.sample, ← h.recent]

theorem length_samples (h : t.Reads src past n) : t.samples.length = n := by
  rw [h.samples, BlockSource.samples, List.length_map, List.length_range]

theorem congr (h : t.Reads src past n) {t' : Tape} (hp : t'.past = t.past) (hs : t'.samples = t.samples) :
    t'.Reads src past n where
  past := hp.trans h.past
  samples := hs.trans h.samples
  recent := by
    rw [← h.recent]
    unfold back
    rw [hp, hs]

theorem appendNybbles (h : t.Reads src past n) {block : UInt16} {m : Nat}
    (hb : ∀ i < m, src.blockAt ((n + i) / 16) = some block) :
    (((List.range m).map fun i ↦ src.nybble block ((n + i) % 16)).foldl (appendNybble (src.header block)) t).Reads
      src past (n + m) := by
  induction m with
  | zero => exact h
  | succ m ih =>
    have ih := ih fun i hi ↦ hb i (Nat.lt_succ_of_lt hi)
    rw [List.range_succ, List.map_append, List.foldl_append]
    refine ih.append ?_
    rw [BlockSource.sample_of_block (hb m (Nat.lt_succ_self m)), ← ih.recent]

theorem appendSilence (h : t.Reads src past n) (m : Nat) (hb : ∀ i < m, src.blockAt ((n + i) / 16) = none) :
    ((List.replicate m 0).foldl Tape.append t).Reads src past (n + m) := by
  induction m with
  | zero => exact h
  | succ m ih =>
    have ih := ih fun i hi ↦ hb i (Nat.lt_succ_of_lt hi)
    rw [List.replicate_succ', List.foldl_append]
    exact ih.append (BlockSource.sample_of_none (hb m (Nat.lt_succ_self m))).symm

theorem appendData {k : Nat} (h : t.Reads src past (4 * k)) (hb : src.blockAt (k / 4) = some t.block)
    (ho : t.offset = UInt16.ofNat (1 + 2 * (k % 4))) :
    (t.appendData src.ram (src.header t.block)).Reads src past (4 * (k + 1)) := by
  have hn : ∀ i ∈ List.range 4, src.nybble t.block (4 * (k % 4) + i) = src.nybble t.block ((4 * k + i) % 16) := by
    intro i hi
    have hi := List.mem_range.1 hi
    exact congrArg (src.nybble t.block) (by omega)
  unfold Tape.appendData
  dsimp only
  rw [ho, BlockSource.nybbles_eq, List.map_congr_left hn]
  refine h.appendNybbles fun i hi ↦ ?_
  have hd : (4 * k + i) / 16 = k / 4 := by omega
  rw [hd]
  exact hb

end Reads

/-- Where the tape is after `k` groups: within a block, or in the silence after the last one. -/
inductive Place (t : Tape) (src : BlockSource) (k : Nat) : Prop
  | sounding (hb : src.blockAt (k / 4) = some t.block) (ho : t.offset = UInt16.ofNat (1 + 2 * (k % 4)))
      (ht : t.tail = 0)
  | silent {b j : Nat} (hj : j < 3) (hk : k = 4 * b + 4 + j) (hc : src.Closes b false)
      (ht : t.tail = UInt8.ofNat (3 - j))

end Tape

def SampleStream.Event.closing : Bool → SampleStream.Event
  | true => .looped
  | false => .ended

/-- What the event of call `k` tells: that it completes the last block, or that such a call was three calls ago. -/
structure BlockSource.Tells (src : BlockSource) (k : Nat) (event : SampleStream.Event) : Prop where
  closing : ∀ loop, event = .closing loop ↔ k % 4 = 3 ∧ src.Closes (k / 4) loop
  finished : event = .finished ↔ 3 ≤ k ∧ (k - 3) % 4 = 3 ∧ src.Closes ((k - 3) / 4) false

namespace Tape

variable {t : Tape} {src : BlockSource} {past : List Int16} {k : Nat}

theorem silent_tail : ∀ j < 2, UInt8.ofNat (3 - j) ≠ 1 ∧ 1 < UInt8.ofNat (3 - j) ∧
    UInt8.ofNat (3 - j) - 1 = UInt8.ofNat (3 - (j + 1)) := by decide

theorem tells_of_sounding (hb : src.blockAt (k / 4) = some t.block) {event : SampleStream.Event}
    (hf : event ≠ .finished) (hc : ∀ loop, event = .closing loop ↔
      k % 4 = 3 ∧ (src.header t.block).last = true ∧ (src.header t.block).loop = loop) : src.Tells k event where
  closing loop := by
    rw [hc, BlockSource.closes_iff hb]
  finished := by
    refine ⟨fun h ↦ absurd h hf, ?_⟩
    rintro ⟨hk, hm, hcl⟩
    have hn := BlockSource.blockAt_succ_of_closes hcl
    have hd : (k - 3) / 4 + 1 = k / 4 := by omega
    rw [hd, hb] at hn
    exact nomatch hn

theorem decodeGroup_within (h : t.Reads src past (4 * k)) (hb : src.blockAt (k / 4) = some t.block)
    (ho : t.offset = UInt16.ofNat (1 + 2 * (k % 4))) (ht : t.tail = 0) (hk : k % 4 ≠ 3)
    {loop : UInt16} {r : Tape × SampleStream.Event} (hr : t.decodeGroup src.ram loop = r) :
    r.1.Reads src past (4 * (k + 1)) ∧ r.1.Place src (k + 1) ∧ src.Tells k r.2 := by
  obtain ⟨hnext, hlt⟩ := offset_cases (k % 4) (Nat.mod_lt k (by decide))
  rw [← ho] at hnext hlt
  have hin : (t.appendData src.ram (src.header t.block)).offset + 2 < Block.size := hlt.2 hk
  have hd := h.appendData hb ho
  have hr' : r = ({ t.appendData src.ram (src.header t.block) with offset := t.offset + 2 }, .none) := by
    rw [← hr, decodeGroup_of_sounding ht, ← BlockSource.header_eq]
    exact advance_of_lt hin _ _
  rw [hr']
  refine ⟨hd.congr rfl rfl, .sounding ?_ ?_ ht, tells_of_sounding hb nofun fun loop ↦ ?_⟩
  · have hq : (k + 1) / 4 = k / 4 := by omega
    rw [hq]
    exact hb
  · have hm : (k + 1) % 4 = k % 4 + 1 := by omega
    rw [hm]
    exact hnext
  · cases loop
    · exact ⟨nofun, fun hc ↦ absurd hc.1 hk⟩
    · exact ⟨nofun, fun hc ↦ absurd hc.1 hk⟩

section Closing

variable (h : t.Reads src past (4 * k)) (hb : src.blockAt (k / 4) = some t.block)
  (ho : t.offset = UInt16.ofNat (1 + 2 * (k % 4))) (ht : t.tail = 0) (hk : k % 4 = 3) (loop : UInt16)

include hb hk in
theorem blockAt_following : src.blockAt ((k + 1) / 4) = src.following (k / 4) t.block := by
  have hq : (k + 1) / 4 = k / 4 + 1 := by omega
  rw [hq, BlockSource.blockAt, hb, Option.bind_some]

include ho ht hk in
theorem decodeGroup_of_closing :
    t.decodeGroup src.ram loop =
      let u := t.appendData src.ram (src.header t.block)
      if !(src.header t.block).last then ({ u with offset := 1, block := t.block + Block.size }, .none)
      else if (src.header t.block).loop then ({ u with offset := 1, block := loop }, .looped)
      else ({ u with offset := 1, block := loop, tail := SampleStream.groups }, .ended) := by
  have hout : ¬ t.offset + 2 < Block.size := by
    rw [ho, hk]
    decide
  rw [decodeGroup_of_sounding ht, ← BlockSource.header_eq]
  exact if_neg hout

include hk in
theorem offset_of_closing : (1 : UInt16) = UInt16.ofNat (1 + 2 * ((k + 1) % 4)) := by
  have hm : (k + 1) % 4 = 0 := by omega
  rw [hm]
  rfl

include h hb ho ht hk in
theorem decodeGroup_goesOn (hl : (src.header t.block).last = false) {r : Tape × SampleStream.Event}
    (hr : t.decodeGroup src.ram loop = r) :
    r.1.Reads src past (4 * (k + 1)) ∧ r.1.Place src (k + 1) ∧ src.Tells k r.2 := by
  have hnext := blockAt_following hb hk
  unfold BlockSource.following at hnext
  rw [decodeGroup_of_closing ho ht hk, hl] at hr
  rw [hl] at hnext
  subst hr
  refine ⟨(h.appendData hb ho).congr rfl rfl, .sounding hnext (offset_of_closing hk) ht,
    tells_of_sounding hb nofun fun loop ↦ ?_⟩
  rw [hl]
  cases loop
  · exact ⟨nofun, nofun⟩
  · exact ⟨nofun, nofun⟩

include h hb ho ht hk in
theorem decodeGroup_loops (hl : (src.header t.block).last = true) (hp : (src.header t.block).loop = true)
    (hloop : loop = src.loops k) {r : Tape × SampleStream.Event} (hr : t.decodeGroup src.ram loop = r) :
    r.1.Reads src past (4 * (k + 1)) ∧ r.1.Place src (k + 1) ∧ src.Tells k r.2 := by
  have hnext := blockAt_following hb hk
  have hcall : 4 * (k / 4) + 3 = k := by omega
  unfold BlockSource.following at hnext
  rw [decodeGroup_of_closing ho ht hk, hl, hp, hloop] at hr
  rw [hl, hp, hcall] at hnext
  subst hr
  refine ⟨(h.appendData hb ho).congr rfl rfl, .sounding hnext (offset_of_closing hk) ht,
    tells_of_sounding hb nofun fun loop ↦ ?_⟩
  rw [hl, hp]
  cases loop
  · exact ⟨nofun, nofun⟩
  · exact ⟨fun _ ↦ ⟨hk, rfl, rfl⟩, fun _ ↦ rfl⟩

include h hb ho ht hk in
theorem decodeGroup_ends (hl : (src.header t.block).last = true) (hp : (src.header t.block).loop = false)
    {r : Tape × SampleStream.Event} (hr : t.decodeGroup src.ram loop = r) :
    r.1.Reads src past (4 * (k + 1)) ∧ r.1.Place src (k + 1) ∧ src.Tells k r.2 := by
  have hc : src.Closes (k / 4) false := ⟨t.block, hb, hl, hp⟩
  rw [decodeGroup_of_closing ho ht hk, hl, hp] at hr
  subst hr
  refine ⟨(h.appendData hb ho).congr rfl rfl, .silent (j := 0) (by decide) (by omega) hc rfl,
    tells_of_sounding hb nofun fun loop ↦ ?_⟩
  rw [hl, hp]
  cases loop
  · exact ⟨fun _ ↦ ⟨hk, rfl, rfl⟩, fun _ ↦ rfl⟩
  · exact ⟨nofun, nofun⟩

include h hb ho ht hk in
theorem decodeGroup_closing (hloop : src.Closes (k / 4) true → loop = src.loops k) {r : Tape × SampleStream.Event}
    (hr : t.decodeGroup src.ram loop = r) :
    r.1.Reads src past (4 * (k + 1)) ∧ r.1.Place src (k + 1) ∧ src.Tells k r.2 := by
  cases hl : (src.header t.block).last with
  | false => exact decodeGroup_goesOn h hb ho ht hk loop hl hr
  | true =>
    cases hp : (src.header t.block).loop with
    | true => exact decodeGroup_loops h hb ho ht hk loop hl hp (hloop ⟨t.block, hb, hl, hp⟩) hr
    | false => exact decodeGroup_ends h hb ho ht hk loop hl hp hr

end Closing

theorem tells_of_silent {b j : Nat} (hj : j < 3) (hk : k = 4 * b + 4 + j) (hc : src.Closes b false)
    {event : SampleStream.Event} (hn : ∀ loop, event ≠ .closing loop) (hf : event = .finished ↔ j = 2) :
    src.Tells k event where
  closing loop := by
    have hd : k / 4 = b + 1 := by omega
    rw [hd]
    exact ⟨fun h ↦ absurd h (hn loop),
      fun h ↦ absurd h.2 (BlockSource.not_closes (BlockSource.blockAt_succ_of_closes hc) loop)⟩
  finished := by
    rw [hf]
    constructor
    · intro hj
      have hd : (k - 3) / 4 = b := by omega
      rw [hd]
      exact ⟨by omega, by omega, hc⟩
    · rintro ⟨-, hm, -⟩
      omega

theorem decodeGroup_silent (h : t.Reads src past (4 * k)) {b j : Nat} (hj : j < 3) (hk : k = 4 * b + 4 + j)
    (hc : src.Closes b false) (ht : t.tail = UInt8.ofNat (3 - j)) {loop : UInt16} {r : Tape × SampleStream.Event}
    (hr : t.decodeGroup src.ram loop = r) :
    (r.2 ≠ .finished → r.1.Reads src past (4 * (k + 1)) ∧ r.1.Place src (k + 1)) ∧ src.Tells k r.2 := by
  unfold decodeGroup at hr
  by_cases h₂ : j = 2
  · have h₁ : t.tail = 1 := by
      rw [ht, h₂]
      rfl
    rw [if_pos h₁] at hr
    subst hr
    refine ⟨fun hf ↦ absurd rfl hf, tells_of_silent hj hk hc (fun loop ↦ ?_) ⟨fun _ ↦ h₂, fun _ ↦ rfl⟩⟩
    cases loop <;> exact nofun
  · obtain ⟨h₁, hlt, hnext⟩ := silent_tail j (by omega)
    rw [← ht] at h₁ hlt hnext
    rw [if_neg h₁, if_pos hlt] at hr
    subst hr
    refine ⟨fun _ ↦ ⟨?_, .silent (j := j + 1) (by omega) (by omega) hc hnext⟩,
      tells_of_silent hj hk hc (fun loop ↦ ?_) ⟨nofun, fun hj ↦ absurd hj h₂⟩⟩
    · have hs : ({ t with tail := t.tail - 1 } : Tape).Reads src past (4 * k) := h.congr rfl rfl
      refine hs.appendSilence 4 fun i hi ↦ ?_
      have hd : (4 * k + i) / 16 = b + 1 := by omega
      rw [hd]
      exact BlockSource.blockAt_succ_of_closes hc
    · cases loop <;> exact nofun

theorem decodeGroup_reads (h : t.Reads src past (4 * k)) (hp : t.Place src k) {loop : UInt16}
    (hloop : src.Closes (k / 4) true → loop = src.loops k) {r : Tape × SampleStream.Event}
    (hr : t.decodeGroup src.ram loop = r) :
    (r.2 ≠ .finished → r.1.Reads src past (4 * (k + 1)) ∧ r.1.Place src (k + 1)) ∧ src.Tells k r.2 := by
  cases hp with
  | sounding hb ho ht =>
    by_cases hk : k % 4 = 3
    · obtain ⟨hd, hp, he⟩ := decodeGroup_closing h hb ho ht hk loop hloop hr
      exact ⟨fun _ ↦ ⟨hd, hp⟩, he⟩
    · obtain ⟨hd, hp, he⟩ := decodeGroup_within h hb ho ht hk hr
      exact ⟨fun _ ↦ ⟨hd, hp⟩, he⟩
  | silent hj hk hc ht => exact decodeGroup_silent h hj hk hc ht hr

end Tape

namespace SampleStream

def decoded (s : SampleStream) (ram : Ram) (loops : Nat → UInt16) : Nat → SampleStream
  | 0 => s
  | k + 1 => ((decoded s ram loops k).decodeGroup ram (loops k)).1

def eventAt (s : SampleStream) (ram : Ram) (loops : Nat → UInt16) (k : Nat) : Event :=
  ((s.decoded ram loops k).decodeGroup ram (loops k)).2

section Run

variable {s : SampleStream} {t : Tape} {src : BlockSource} {past : List Int16} {k : Nat}

theorem holds_decoded (h : s.Holds t) (hr : t.Reads src past 0) (hp : t.Place src 0)
    (hf : ∀ j < k, s.eventAt src.ram src.loops j ≠ .finished) :
    ∃ u : Tape, (s.decoded src.ram src.loops k).Holds u ∧ u.Reads src past (4 * k) ∧ u.Place src k := by
  induction k with
  | zero => exact ⟨t, h, hr, hp⟩
  | succ k ih =>
    obtain ⟨u, hu, hur, hup⟩ := ih fun j hj ↦ hf j (Nat.lt_succ_of_lt hj)
    obtain ⟨hg, he⟩ := hu.decodeGroup src.ram (src.loops k)
    have hn := hf k (Nat.lt_succ_self k)
    unfold eventAt at hn
    rw [he] at hn
    obtain ⟨hd, -⟩ := Tape.decodeGroup_reads hur hup (fun _ ↦ rfl) rfl
    exact ⟨_, hg, hd hn⟩

theorem tells_eventAt (h : s.Holds t) (hr : t.Reads src past 0) (hp : t.Place src 0)
    (hf : ∀ j < k, s.eventAt src.ram src.loops j ≠ .finished) : src.Tells k (s.eventAt src.ram src.loops k) := by
  obtain ⟨u, hu, hur, hup⟩ := holds_decoded h hr hp hf
  obtain ⟨-, he⟩ := hu.decodeGroup src.ram (src.loops k)
  obtain ⟨-, htell⟩ := Tape.decodeGroup_reads hur hup (fun _ ↦ rfl) rfl
  unfold eventAt
  rw [he]
  exact htell

theorem Holds.ofFn_get (h : s.Holds t) {n : Nat} (hl : (t.past ++ t.samples).length = n + 12) :
    List.ofFn (fun i : Fin 12 ↦ s.get i) = (t.past ++ t.samples).drop n := by
  refine List.ext_getElem ?_ fun i hi hi' ↦ ?_
  · rw [List.length_ofFn, List.length_drop, hl]
    omega
  · rw [List.length_ofFn] at hi
    have hr : n + 12 - 1 - (11 - i) = n + i := by omega
    rw [List.getElem_ofFn, List.getElem_drop, h.ring i hi]
    unfold Tape.back
    rw [List.getD_eq_getElem?_getD, List.getElem?_reverse (by omega), hl, hr, List.getElem?_eq_getElem (by omega),
      Option.getD_some]

end Run

/-- The stream that is decoded after a restart at a block. -/
def source (s : SampleStream) (ram : Ram) (start : UInt16) (loops : Nat → UInt16) : BlockSource where
  ram := ram
  start := start
  loops := loops
  before := (s.ring[11], s.ring[10])

theorem reads_restart (s : SampleStream) (ram : Ram) (start : UInt16) (loops : Nat → UInt16) :
    (Tape.restart { block := 0, past := s.ring.toList } start).Reads (s.source ram start loops) s.ring.toList 0 where
  past := rfl
  samples := rfl
  recent := by
    have ht := s.holds_restart start 0
    rw [← ht.ring 11 (by decide), ← ht.ring 10 (by decide)]
    rfl

/-- The ring holds what was in it before and then the samples of the reference, without the oldest ones. The decoder
tells when the last block is complete, and it finishes with the third call after a last block that does not loop. -/
theorem decoded_blocks (s : SampleStream) (ram : Ram) (start : UInt16) (loops : Nat → UInt16) (k : Nat)
    (h : ∀ j < k, (s.restart start).eventAt ram loops j ≠ .finished) :
    let src := s.source ram start loops
    let event := (s.restart start).eventAt ram loops
    List.ofFn (fun i : Fin 12 ↦ ((s.restart start).decoded ram loops k).get i) =
        (s.ring.toList ++ src.samples (4 * k)).drop (4 * k) ∧
      (event k = .looped ↔ k % 4 = 3 ∧ src.Closes (k / 4) true) ∧
      (event k = .ended ↔ k % 4 = 3 ∧ src.Closes (k / 4) false) ∧
      (event k = .finished ↔ 3 ≤ k ∧ event (k - 3) = .ended) := by
  intro src event
  have ht := s.holds_restart start 0
  have hr := s.reads_restart ram start loops
  have he (j : Nat) (hj : j ≤ k) : src.Tells j (event j) :=
    tells_eventAt ht hr (.sounding rfl rfl rfl) fun i hi ↦ h i (by omega)
  obtain ⟨u, hu, hur, -⟩ := holds_decoded ht hr (.sounding rfl rfl rfl) h
  have hl : (u.past ++ u.samples).length = 4 * k + 12 := by
    rw [List.length_append, hur.past, hur.length_samples, Vector.length_toList, Nat.add_comm]
  refine ⟨?_, (he k (Nat.le_refl k)).closing true, (he k (Nat.le_refl k)).closing false, ?_⟩
  · rw [← hur.past, ← hur.samples]
    exact hu.ofFn_get hl
  · rw [(he k (Nat.le_refl k)).finished, ← (he (k - 3) (Nat.sub_le k 3)).closing false]
    rfl

/-- A last block at the greatest scale that predicts each sample by filter 2. -/
def lastBlock : Ram := (Ram.zero.write 0 0xC9).write 1 0x12

theorem decoded_blocks_lastBlock :
    (∀ j < 6, (restart {} 0).eventAt lastBlock (fun _ ↦ 0) j ≠ .finished) ∧
      (source {} lastBlock 0 fun _ ↦ 0).samples 4 = [4096, 16000, 26660, -29716] ∧
      (List.ofFn fun i : Fin 12 ↦ ((restart {} 0).decoded lastBlock (fun _ ↦ 0) 6).get i) =
        [18504, -22046, 6162, 32414, 0, 0, 0, 0, 0, 0, 0, 0] ∧
      (restart {} 0).eventAt lastBlock (fun _ ↦ 0) 3 = .ended ∧
      (restart {} 0).eventAt lastBlock (fun _ ↦ 0) 6 = .finished := by
  have h : ∀ j < 6, (restart {} 0).eventAt lastBlock (fun _ ↦ 0) j ≠ .finished := by decide +kernel
  have he : (restart {} 0).eventAt lastBlock (fun _ ↦ 0) 3 = .ended := by decide +kernel
  obtain ⟨hr, -, -, hf⟩ := decoded_blocks {} lastBlock 0 (fun _ ↦ 0) 6 h
  exact ⟨h, by decide +kernel, hr.trans (by decide +kernel), he, hf.2 ⟨by decide, he⟩⟩

end SampleStream

end SoundUnit
