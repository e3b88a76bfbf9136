import SoundUnit.Proofs.Voice.Resampler

namespace SoundUnit

theorem BlockHeader.sample_of_filter_zero {h : BlockHeader} (hf : h.filter = 0) (nybble : Fin 16)
    (last older last' older' : Int16) : h.sample nybble last older = h.sample nybble last' older' := by
  have hp (x y : Int) : h.predict x y = 0 := by
    simp only [predict, hf]
  simp only [sample, hp]

namespace SampleStream

/-- The streams are at the same place, and their newest `n` samples are the same. -/
structure Agree (n : Nat) (s t : SampleStream) : Prop where
  block : s.block = t.block
  offset : s.offset = t.offset
  position : s.position = t.position
  tail : s.tail = t.tail
  newest : ∀ i < 12, 12 ≤ i + n → s.get i = t.get i

namespace Agree

variable {n : Nat} {s t : SampleStream}

theorem restart (s t : SampleStream) (block : UInt16) : Agree 0 (s.restart block) (t.restart block) where
  block := rfl
  offset := rfl
  position := rfl
  tail := rfl
  newest i hi hn := by omega

theorem push (h : Agree n s t) (sample : Int16) : Agree (n + 1) (s.push sample) (t.push sample) where
  block := h.block
  offset := h.offset
  position := congrArg (fun p ↦ (p + 1) % 12) h.position
  tail := h.tail
  newest i hi hn := by
    rcases Nat.lt_or_eq_of_le (Nat.le_of_lt_succ hi) with hlt | rfl
    · rw [get_push s sample hlt, get_push t sample hlt]
      exact h.newest (i + 1) (by omega) (by omega)
    · rw [get_push_newest, get_push_newest]

theorem pushNybble (h : Agree n s t) {header : BlockHeader} (hf : header.filter = 0) (nybble : Fin 16) :
    Agree (n + 1) (pushNybble header s nybble) (pushNybble header t nybble) := by
  have hs := header.sample_of_filter_zero hf nybble (s.get 11) (s.get 10) (t.get 11) (t.get 10)
  simp only [SampleStream.pushNybble, hs]
  exact h.push _

theorem foldl_pushNybble (h : Agree n s t) {header : BlockHeader} (hf : header.filter = 0) (l : List (Fin 16)) :
    Agree (n + l.length) (l.foldl (SampleStream.pushNybble header) s) (l.foldl (SampleStream.pushNybble header) t) := by
  induction l generalizing n s t with
  | nil => exact h
  | cons nybble l ih =>
    have hn : n + (nybble :: l).length = n + 1 + l.length := by
      rw [List.length_cons]
      omega
    rw [hn]
    exact ih (h.pushNybble hf nybble)

theorem decodeData (h : Agree n s t) (ram : Ram) {header : BlockHeader} (hf : header.filter = 0) :
    Agree (n + 4) (s.decodeData ram header) (t.decodeData ram header) := by
  simp only [SampleStream.decodeData, h.block, h.offset]
  exact h.foldl_pushNybble hf (Block.nybbles _ _)

theorem withOffset (h : Agree n s t) (offset : UInt16) : Agree n { s with offset } { t with offset } where
  block := h.block
  offset := rfl
  position := h.position
  tail := h.tail
  newest := h.newest

theorem eq (h : Agree 12 s t) : s = t := by
  have hr : s.ring = t.ring := by
    refine Vector.ext fun i hi ↦ ?_
    have hn : (s.position + (i + 12 - s.position % 12) % 12) % 12 = i := by omega
    have hg := h.newest ((i + 12 - s.position % 12) % 12) (Nat.mod_lt _ (by decide)) (by omega)
    simp only [get, Fin.getElem_fin, Fin.ofNat, ← h.position, hn] at hg
    exact hg
  obtain ⟨hb, ho, hp, ht, -⟩ := h
  cases s
  cases t
  exact (SampleStream.mk.injEq ..).mpr ⟨hb, ho, hr, hp, ht⟩

end Agree

theorem decodeGroup_within {s : SampleStream} (ht : s.tail = 0) (ho : s.offset + 2 < Block.size) (ram : Ram)
    (loop : UInt16) :
    s.decodeGroup ram loop =
      ({ s.decodeData ram (.ofByte (ram.read s.block)) with offset := s.offset + 2 }, .none) := by
  have h₁ : s.tail ≠ 1 := by
    rw [ht]
    decide
  have h₂ : ¬ 1 < s.tail := by
    rw [ht]
    decide
  have hd (header : BlockHeader) : (s.decodeData ram header).offset = s.offset := rfl
  have ha (header : BlockHeader) : (s.decodeData ram header).offset + 2 < Block.size := by
    rw [hd]
    exact ho
  rw [decodeGroup, if_neg h₁, if_neg h₂]
  dsimp only
  rw [advance, if_pos (ha _), hd]

theorem Agree.decodeGroup {n : Nat} {s t : SampleStream} (h : Agree n s t) (hs : s.tail = 0)
    (ho : s.offset + 2 < Block.size) {ram : Ram} (hf : (BlockHeader.ofByte (ram.read s.block)).filter = 0)
    (loop : UInt16) :
    Agree (n + 4) (s.decodeGroup ram loop).1 (t.decodeGroup ram loop).1 ∧ (t.decodeGroup ram loop).2 = .none := by
  have hd := h.decodeData ram hf
  rw [decodeGroup_within hs ho, decodeGroup_within (h.tail ▸ hs) (h.offset ▸ ho), ← h.block, ← h.offset]
  exact ⟨hd.withOffset _, rfl⟩

end SampleStream

namespace Voice

structure SameRegisters (v w : Voice) : Prop where
  volume : v.volume = w.volume
  pitch : v.pitch = w.pitch
  source : v.source = w.source
  adsr : v.envelope.adsr = w.envelope.adsr
  gain : v.envelope.gain = w.envelope.gain
  spareA : v.spareA = w.spareA
  spareB : v.spareB = w.spareB
  spareE : v.spareE = w.spareE

/-- The voice with all that another one has left over from playing. -/
def withPast (v past : Voice) : Voice :=
  { v with
    stream := past.stream
    counter := past.counter
    output := past.output
    envelopeReadback := past.envelopeReadback
    outputReadback := past.outputReadback }

theorem SameRegisters.keyOn_eq {v w : Voice} (h : SameRegisters v w) : w.keyOn = v.keyOn.withPast w := by
  obtain ⟨h₁, h₂, h₃, h₄, h₅, h₆, h₇, h₈⟩ := h
  simp only [keyOn, withPast, Envelope.keyOn, h₁, h₂, h₃, h₄, h₅, h₆, h₇, h₈]

theorem receive_withPast (v past : Voice) (m : Moment) :
    ∃ past', (v.withPast past).receive m = (v.receive m).withPast past' := by
  refine receive_related (R := fun v w ↦ ∃ past, w = v.withPast past) ?_ ?_ ⟨past, rfl⟩
  · rintro v w data r ⟨past, rfl⟩
    exact ⟨past.writeRegister data r, by cases r <;> rfl⟩
  · rintro - v w ⟨past, rfl⟩
    exact ⟨past, rfl⟩

theorem receive_withStream (v : Voice) (stream : SampleStream) (m : Moment) :
    (v.withStream stream).receive m = (v.receive m).withStream stream := by
  refine receive_related (R := fun v w ↦ w = v.withStream stream) ?_ ?_ rfl
  · rintro v w data r rfl
    cases r <;> rfl
  · rintro - v w rfl
    rfl

structure Starting (block : UInt16) (n : Nat) (v : Voice) (stream : SampleStream) : Prop where
  streams : v.stream.Agree (4 * n) stream
  startDelay : v.startDelay = UInt8.ofNat (4 - n)
  block : v.stream.block = block
  offset : v.stream.offset = UInt16.ofNat (1 + 2 * n)
  tail : v.stream.tail = 0

theorem clock_withPast {v : Voice} (h : v.startDelay = keyOnDelay) (past : Voice) (ram : Ram) (tick : Tick) :
    let block := readAddress ram (v.directoryEntry tick.directory)
    let stream := past.stream.restart block
    ((v.withPast past).clock ram tick).1 = (v.clock ram tick).1.withStream stream ∧
      Starting block 0 (v.clock ram tick).1 stream := by
  intro block stream
  have hv : v.restarted ram tick = { v with stream := v.stream.restart block, counter := 0 } := if_pos h
  have hw : (v.withPast past).restarted ram tick = { v.withPast past with stream, counter := 0 } := if_pos h
  rw [clock_of_keyed h, clock_of_keyed (v := v.withPast past) h, hv, hw]
  exact ⟨rfl, .restart _ _ _, congrArg (· - 1) h, rfl, rfl, rfl⟩

namespace Starting

variable {block : UInt16} {n : Nat} {v : Voice} {stream : SampleStream}

theorem receive (h : Starting block n v stream) (m : Moment) : Starting block n (v.receive m) stream := by
  have hs := v.stream_receive m
  have hd := v.startDelay_receive m
  obtain ⟨h₁, h₂, h₃, h₄, h₅⟩ := h
  rw [← hs] at h₁ h₃ h₄ h₅
  exact ⟨h₁, hd.trans h₂, h₃, h₄, h₅⟩

theorem clock (h : Starting block n v stream) (hn : n < 3) {ram : Ram}
    (hf : (BlockHeader.ofByte (ram.read block)).filter = 0) (tick : Tick) :
    ∃ stream', ((v.withStream stream).clock ram tick).1 = (v.clock ram tick).1.withStream stream' ∧
      Starting block (n + 1) (v.clock ram tick).1 stream' := by
  obtain ⟨hne, hpos, hsub, hle, hle'⟩ := Follows.starting_delay n hn
  obtain ⟨hnext, hlt⟩ := Tape.offset_cases n (Nat.lt_succ_of_lt hn)
  have hin := hlt.2 (Nat.ne_of_lt hn)
  rw [← h.startDelay] at hne hpos hsub
  rw [← hsub] at hle hle'
  rw [← h.offset] at hin hnext
  obtain ⟨hg, hevent⟩ := h.streams.decodeGroup h.tail hin (h.block ▸ hf) (v.loopAddress ram tick.directory)
  have hs := SampleStream.decodeGroup_within h.tail hin ram (v.loopAddress ram tick.directory)
  generalize ht : stream.decodeGroup ram (v.loopAddress ram tick.directory) = r at hg hevent
  obtain ⟨stream', event⟩ := r
  subst hevent
  have hv := warmUp_of_decode (v := v.countDown) ⟨hle, hle'⟩ hs
  have hw := warmUp_of_decode (v := v.countDown.withStream stream) ⟨hle, hle'⟩ ht
  refine ⟨stream', ?_, ?_⟩
  · rw [clock_of_counting v ram tick hpos hne, clock_of_counting (v.withStream stream) ram tick hpos hne, hv]
    exact congrArg (fun p ↦ p.1.hushed) hw
  · rw [clock_of_counting v ram tick hpos hne, hv]
    rw [hs] at hg
    have hn' : 4 - (n + 1) = 3 - n := by omega
    exact ⟨hg, hn' ▸ hsub, h.block, hnext, h.tail⟩

theorem live (h : Starting block n v stream) (hn : n < 3) {m : Moment}
    (hf : (BlockHeader.ofByte (m.ram.read block)).filter = 0) :
    ∃ stream', (v.withStream stream).live m = (v.live m).withStream stream' ∧
      Starting block (n + 1) (v.live m) stream' := by
  obtain ⟨stream', he, hs⟩ := (h.receive m).clock hn hf m.tick
  refine ⟨stream', ?_, hs⟩
  rw [Voice.live, receive_withStream]
  exact he

theorem foldl_live (h : Starting block n v stream) (moments : List Moment) (hn : n + moments.length ≤ 3)
    (hf : ∀ m ∈ moments, (BlockHeader.ofByte (m.ram.read block)).filter = 0) :
    ∃ stream', moments.foldl Voice.live (v.withStream stream) = (moments.foldl Voice.live v).withStream stream' ∧
      Starting block (n + moments.length) (moments.foldl Voice.live v) stream' := by
  induction moments generalizing n v stream with
  | nil => exact ⟨stream, rfl, h⟩
  | cons m moments ih =>
    rw [List.length_cons] at hn
    obtain ⟨stream₁, he, hs⟩ := h.live (by omega) (hf m (List.mem_cons_self ..))
    obtain ⟨stream₂, he', hs'⟩ := ih hs (by omega) fun m' hm ↦ hf m' (List.mem_cons_of_mem m hm)
    refine ⟨stream₂, ?_, ?_⟩
    · rw [List.foldl_cons, he, he', List.foldl_cons]
    · have hl : n + (m :: moments).length = n + 1 + moments.length := by
        rw [List.length_cons]
        omega
      rw [hl, List.foldl_cons]
      exact hs'

theorem eq (h : Starting block 3 v stream) : v.withStream stream = v := by
  rw [withStream, ← h.streams.eq]

end Starting

/-- A key-on forgets what the voice has played. Two voices with the same registers are keyed on, and the same happens to
both in the five ticks of the start; the first block predicts nothing in the three of them that read it. Then the voices
are the same. -/
theorem keyOn_forgets {v w : Voice} (h : SameRegisters v w) (m₀ m₁ m₂ m₃ m₄ : Moment)
    (hf : ∀ m ∈ [m₁, m₂, m₃], (BlockHeader.ofByte (m.ram.read (v.keyOn.startAddress m₀))).filter = 0) :
    [m₀, m₁, m₂, m₃, m₄].foldl live w.keyOn = [m₀, m₁, m₂, m₃, m₄].foldl live v.keyOn := by
  have hd : (v.keyOn.receive m₀).startDelay = keyOnDelay := v.keyOn.startDelay_receive m₀
  obtain ⟨past, hr⟩ := receive_withPast v.keyOn w m₀
  obtain ⟨he, hs⟩ := clock_withPast hd past m₀.ram m₀.tick
  obtain ⟨stream, he', hs'⟩ := hs.foldl_live [m₁, m₂, m₃] (Nat.le_refl 3) hf
  rw [hs'.eq] at he'
  have hlive : w.keyOn.live m₀ =
      (v.keyOn.live m₀).withStream (past.stream.restart (v.keyOn.startAddress m₀)) := by
    rw [live, h.keyOn_eq, hr]
    exact he
  change [m₁, m₂, m₃].foldl live ((v.keyOn.live m₀).withStream (past.stream.restart (v.keyOn.startAddress m₀))) =
    [m₁, m₂, m₃].foldl live (v.keyOn.live m₀) at he'
  have hsplit (u : Voice) : [m₀, m₁, m₂, m₃, m₄].foldl live u = ([m₁, m₂, m₃].foldl live (u.live m₀)).live m₄ := rfl
  rw [hsplit, hsplit, hlive, he']

theorem keyOn_forgets_noisyPast :
    let v : Voice := { pitch := 0x1000 }
    let w : Voice := { v with
      stream := { block := 0x300, offset := 5, ring := Vector.replicate 12 0x1234, position := 8, tail := 2 }
      counter := 0x4567
      envelope := { v.envelope with stage := .decay, level := 0x345 }
      output := -2 }
    let m : Moment := {
      ram := (Ram.zero.write 0 0xC0).write 1 0x7F
      tick := { restingMoment.tick with directory := 0x100 } }
    v ≠ w ∧ SameRegisters v w ∧
      (∀ m' ∈ [m, m, m], (BlockHeader.ofByte (m'.ram.read (v.keyOn.startAddress m))).filter = 0) ∧
      [m, m, m, m, m].foldl live w.keyOn = [m, m, m, m, m].foldl live v.keyOn := by
  intro v w m
  have hne : v ≠ w := by decide +kernel
  have h : SameRegisters v w := ⟨rfl, rfl, rfl, rfl, rfl, rfl, rfl, rfl⟩
  have hf : ∀ m' ∈ [m, m, m], (BlockHeader.ofByte (m'.ram.read (v.keyOn.startAddress m))).filter = 0 := by
    decide +kernel
  exact ⟨hne, h, hf, keyOn_forgets h m m m m m hf⟩

end Voice

end SoundUnit
