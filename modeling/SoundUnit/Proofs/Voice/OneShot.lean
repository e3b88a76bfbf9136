import SoundUnit.Proofs.Dsp.Voices
import SoundUnit.Proofs.Voice.Events
import SoundUnit.Proofs.Voice.Rest

namespace SoundUnit

/-- A sample of consecutive blocks that ends with the last of them. -/
structure OneShot (ram : Ram) (start : UInt16) (blocks : Nat) : Prop where
  nonempty : 0 < blocks
  goesOn : ∀ b, b + 1 < blocks → (BlockHeader.ofByte (ram.read (start + UInt16.ofNat (9 * b)))).last = false
  last : (BlockHeader.ofByte (ram.read (start + UInt16.ofNat (9 * (blocks - 1))))).last = true
  noLoop : (BlockHeader.ofByte (ram.read (start + UInt16.ofNat (9 * (blocks - 1))))).loop = false

namespace BlockSource

variable {src : BlockSource} {blocks b k n : Nat}

theorem last_of_oneShot (h : OneShot src.ram src.start blocks) (hb : b + 1 < blocks) :
    (src.header (src.start + UInt16.ofNat (9 * b))).last = false := by
  rw [header_eq]
  exact h.goesOn b hb

theorem blockAt_of_oneShot (h : OneShot src.ram src.start blocks) (hb : b < blocks) :
    src.blockAt b = some (src.start + UInt16.ofNat (9 * b)) := by
  induction b with
  | zero => simp [blockAt]
  | succ b ih =>
    have hl := last_of_oneShot h hb
    have ha : src.start + UInt16.ofNat (9 * b) + Block.size = src.start + UInt16.ofNat (9 * (b + 1)) := by
      rw [Nat.mul_succ, UInt16.ofNat_add, ← UInt16.add_assoc]
      rfl
    rw [blockAt, ih (Nat.lt_of_succ_lt hb), Option.bind_some, following, hl, ha]
    rfl

theorem closes_last_of_oneShot (h : OneShot src.ram src.start blocks) (hb : b + 1 = blocks) :
    src.Closes b false := by
  have hl : b = blocks - 1 := by omega
  refine ⟨_, blockAt_of_oneShot h (by omega), ?_⟩
  rw [hl, header_eq]
  exact ⟨h.last, h.noLoop⟩

theorem blockAt_none_of_oneShot (h : OneShot src.ram src.start blocks) (hb : blocks ≤ b) : src.blockAt b = none := by
  have hpos := h.nonempty
  induction b with
  | zero => omega
  | succ b ih =>
    rcases Nat.lt_or_eq_of_le hb with hlt | he
    · rw [blockAt, ih (Nat.le_of_lt_succ hlt), Option.bind_none]
    · exact blockAt_succ_of_closes (closes_last_of_oneShot h he.symm)

theorem closes_iff_of_oneShot (h : OneShot src.ram src.start blocks) (loop : Bool) :
    src.Closes b loop ↔ b + 1 = blocks ∧ loop = false := by
  rcases Nat.lt_trichotomy (b + 1) blocks with hlt | he | hlt
  · rw [closes_iff (blockAt_of_oneShot h (by omega)), last_of_oneShot h hlt]
    constructor
    · intro hc
      exact nomatch hc.1
    · intro hc
      omega
  · obtain ⟨block, hb, hl, hn⟩ := closes_last_of_oneShot h he
    rw [closes_iff hb, hl, hn]
    exact ⟨fun hc ↦ ⟨he, hc.2.symm⟩, fun hc ↦ ⟨rfl, hc.2.symm⟩⟩
  · have hn := not_closes (blockAt_none_of_oneShot h (b := b) (by omega)) loop
    exact ⟨fun hc ↦ absurd hc hn, fun hc ↦ by omega⟩

theorem not_closes_loop_of_oneShot (h : OneShot src.ram src.start blocks) : ¬ src.Closes b true := by
  rw [closes_iff_of_oneShot h]
  intro hc
  exact nomatch hc.2

theorem sample_of_oneShot (h : OneShot src.ram src.start blocks) (hn : 16 * blocks ≤ n) : src.sample n = 0 :=
  sample_of_none (blockAt_none_of_oneShot h (by omega))

theorem Tells.of_oneShot {event : SampleStream.Event} (ht : src.Tells k event)
    (h : OneShot src.ram src.start blocks) :
    event ≠ .looped ∧ (event = .ended ↔ k + 1 = 4 * blocks) ∧ (event = .finished ↔ k = 4 * blocks + 2) := by
  have hpos := h.nonempty
  refine ⟨fun hl ↦ not_closes_loop_of_oneShot h ((ht.closing true).1 hl).2, ?_, ?_⟩
  · have hc := ht.closing false
    rw [closes_iff_of_oneShot h] at hc
    change event = .closing false ↔ _
    rw [hc]
    constructor
    · rintro ⟨hm, hb, -⟩
      omega
    · intro hk
      exact ⟨by omega, by omega, rfl⟩
  · rw [ht.finished, closes_iff_of_oneShot h]
    constructor
    · rintro ⟨hk, hm, hb, -⟩
      omega
    · intro hk
      exact ⟨by omega, by omega, by omega, rfl⟩

end BlockSource

namespace Voice

section Run

variable (v : Voice) (moments : Nat → Moment)

def voiceAt : Nat → Voice
  | 0 => v.keyOn
  | n + 1 => (voiceAt n).live (moments n)

def poised (n : Nat) : Voice := (v.voiceAt moments n).receive (moments n)

def reportsAt (n : Nat) : Bool := ((v.poised moments n).clock (moments n).ram (moments n).tick).2

/-- The sum of the steps before tick `n`, in units of 1/4096 of a sample. The first five ticks do not move, and no step
goes beyond the next two groups. -/
def travelled : Nat → Int
  | 0 => 0
  | n + 1 =>
    if n < 5 then 0
    else travelled n + min ((v.poised moments n).step (moments n).tick.modulator) (0x7FFF - travelled n % 0x4000)

def inputAt (n : Nat) : Playback.Input := (v.poised moments n).input (moments n).ram (moments n).tick

def playbackAt : Nat → Playback
  | 0 => v.keyOn.playback
  | n + 1 => (playbackAt n).clock (v.inputAt moments n)

def eventAt (n : Nat) : SampleStream.Event := (v.playbackAt moments n).event (v.inputAt moments n)

/-- How many groups have been decoded after tick `n`. -/
def groupsAt (n : Nat) : Nat := min n 3 + (v.travelled moments n / 0x4000).toNat

variable {n : Nat}

theorem travelled_of_starting (h : n ≤ 5) : v.travelled moments n = 0 := by
  cases n with
  | zero => rfl
  | succ n => exact if_pos (Nat.lt_of_succ_le h)

theorem travelled_of_playing (h : 5 ≤ n) : v.travelled moments (n + 1) =
    v.travelled moments n +
      min ((v.poised moments n).step (moments n).tick.modulator) (0x7FFF - v.travelled moments n % 0x4000) :=
  if_neg (Nat.not_lt.2 h)

theorem travelled_of_unmodulated (h : 5 ≤ n) (hm : (moments n).tick.modulator = none) :
    v.travelled moments (n + 1) = v.travelled moments n + ((v.poised moments n).pitch &&& 0x3FFF).toNat := by
  have hp : ((v.poised moments n).pitch &&& 0x3FFF).toNat ≤ 0x3FFF := by
    rw [UInt16.toNat_and]
    exact Nat.and_le_right
  have hs : (v.poised moments n).step none = ((v.poised moments n).pitch &&& 0x3FFF).toNat := rfl
  rw [travelled_of_playing v moments h, hm, hs]
  omega

theorem travelled_le_succ (n : Nat) : v.travelled moments n ≤ v.travelled moments (n + 1) := by
  rcases Nat.lt_or_ge n 5 with h | h
  · have hn := travelled_of_starting v moments (Nat.le_of_lt h)
    exact Int.le_of_eq (hn.trans (travelled_of_starting v moments h).symm)
  · have hs := (v.poised moments n).step_nonneg (moments n).tick.modulator
    rw [travelled_of_playing v moments h]
    omega

theorem travelled_succ_le (n : Nat) :
    v.travelled moments (n + 1) ≤ 0x4000 * (v.travelled moments n / 0x4000) + 0x7FFF := by
  rcases Nat.lt_or_ge n 5 with h | h
  · rw [travelled_of_starting v moments (Nat.le_of_lt h), travelled_of_starting v moments h]
    decide
  · rw [travelled_of_playing v moments h]
    omega

theorem travelled_mono {i : Nat} (h : i ≤ n) : v.travelled moments i ≤ v.travelled moments n := by
  induction h with
  | refl => exact Int.le_refl _
  | step _ ih => exact Int.le_trans ih (v.travelled_le_succ moments _)

theorem travelled_nonneg (n : Nat) : 0 ≤ v.travelled moments n := v.travelled_mono moments (Nat.zero_le n)

theorem groupsAt_zero : v.groupsAt moments 0 = 0 := by simp [groupsAt, travelled]

theorem le_groupsAt_iff {k : Nat} (hk : 4 ≤ k) :
    k ≤ v.groupsAt moments n ↔ 0x4000 * ((k : Int) - 3) ≤ v.travelled moments n := by
  unfold groupsAt
  have hp := v.travelled_nonneg moments n
  rcases Nat.lt_or_ge n 3 with h | h
  · rw [travelled_of_starting v moments (by omega)]
    omega
  · omega

theorem groupsAt_succ (n : Nat) :
    v.groupsAt moments n ≤ v.groupsAt moments (n + 1) ∧ v.groupsAt moments (n + 1) ≤ v.groupsAt moments n + 1 := by
  unfold groupsAt
  have hp := v.travelled_nonneg moments n
  have hle := v.travelled_le_succ moments n
  have hlt := v.travelled_succ_le moments n
  rcases Nat.lt_or_ge n 3 with h | h
  · rw [travelled_of_starting v moments (n := n) (by omega), travelled_of_starting v moments (n := n + 1) (by omega)]
    omega
  · omega

theorem age_playbackAt (n : Nat) : (v.playbackAt moments n).age = n := by
  induction n with
  | zero => rfl
  | succ n ih => rw [playbackAt, Playback.age_clock, ih]

theorem position_playbackAt (n : Nat) : (v.playbackAt moments n).position = v.travelled moments n := by
  induction n with
  | zero => rfl
  | succ n ih =>
    have ha := v.age_playbackAt moments n
    rcases Nat.lt_or_ge n 5 with h | h
    · rw [playbackAt, Playback.position_clock_of_starting (by omega), ih,
        travelled_of_starting v moments (Nat.le_of_lt h), travelled_of_starting v moments h]
    · rw [playbackAt, Playback.position_clock_of_playing (by omega), travelled_of_playing v moments h, ← ih]
      rfl

theorem decodes_playbackAt
    (hl : (v.playbackAt moments (n + 1)).tape.samples.length = 4 * v.groupsAt moments n) :
    (v.playbackAt moments (n + 1)).Decodes ↔ v.groupsAt moments (n + 1) = v.groupsAt moments n + 1 := by
  have hp := v.travelled_nonneg moments n
  have hle := v.travelled_le_succ moments n
  have hlt := v.travelled_succ_le moments n
  unfold Playback.Decodes
  rw [age_playbackAt, position_playbackAt, hl]
  unfold groupsAt
  rcases Nat.lt_or_ge n 4 with h | h
  · rw [travelled_of_starting v moments (n := n) (by omega), travelled_of_starting v moments (n := n + 1) (by omega)]
    omega
  · omega

end Run

/-- The memory stays, the voice plays no noise and it is not keyed off. Its registers may be written. -/
structure Undisturbed (moments : Nat → Moment) (ram : Ram) : Prop where
  ram n : (moments n).ram = ram
  keyOff n : (moments n).keyOff = false
  noise n : (moments n).tick.noise = none

section Undisturbed

variable {v : Voice} {moments : Nat → Moment} {ram : Ram} {blocks n : Nat}

theorem stage_poised (h : Undisturbed moments ram) (n : Nat) :
    (v.poised moments n).envelope.stage = (v.voiceAt moments n).envelope.stage :=
  receive_keeps (f := fun v ↦ v.envelope.stage) (fun v data r ↦ v.stage_writeRegister data r)
    (fun hk ↦ by rw [h.keyOff] at hk; exact nomatch hk) _

theorem off_succ (hoff : (v.voiceAt moments n).envelope.stage = .off) :
    (v.voiceAt moments (n + 1)).envelope.stage = .off :=
  off_clock (off_receive hoff (moments n)) (moments n).ram (moments n).tick

theorem before_release (h : Undisturbed moments ram) (hon : (v.voiceAt moments n).envelope.stage ≠ .off) :
    (v.voiceAt moments n).envelope.stage.rank < Stage.release.rank := by
  induction n with
  | zero => exact Nat.zero_lt_succ 2
  | succ n ih =>
    have ih := ih (mt off_succ hon)
    rw [← stage_poised h] at ih
    generalize hw : v.voiceAt moments (n + 1) = w at hon
    obtain ⟨-, ho, -⟩ | ⟨-, he⟩ | ⟨-, he⟩ := (v.poised moments n).clock_cases _ _ hw
    · exact absurd ho hon
    · rw [he]
      exact ih
    · rw [he]
      exact (v.poised moments n).envelope.clock_before_release ih _

theorem contained_voiceAt (v : Voice) (moments : Nat → Moment) (n : Nat) : (v.voiceAt moments n).Contained := by
  induction n with
  | zero => exact .keyOn v
  | succ n ih => exact (ih.receive (moments n)).clock _ _

theorem follows_poised (hon : (v.voiceAt moments n).envelope.stage ≠ .off) :
    (v.poised moments n).Follows (v.playbackAt moments n) := by
  refine Follows.receive ?_ (moments n)
  induction n with
  | zero => exact .keyed rfl
  | succ n ih =>
    have hn := mt off_succ hon
    have hp : (v.poised moments n).envelope.stage ≠ .off := fun hoff ↦
      hon (off_clock hoff (moments n).ram (moments n).tick)
    exact ((ih hn).receive (moments n)).clock (moments n).ram (moments n).tick hp hon

theorem eventAt_iff (h : Undisturbed moments ram) (hon : (v.voiceAt moments n).envelope.stage ≠ .off) :
    (v.reportsAt moments n = true ↔ v.eventAt moments n = .looped ∨ v.eventAt moments n = .ended) ∧
      ((v.voiceAt moments (n + 1)).envelope.stage = .off ↔ v.eventAt moments n = .finished) := by
  have hb := before_release h hon
  rw [← stage_poised h] at hb
  obtain ⟨hr, hs⟩ := (follows_poised hon).clock_event (moments n).ram (moments n).tick hb
  refine ⟨?_, hs⟩
  rw [reportsAt, hr]
  exact decide_eq_true_iff

/-- The samples of the voice. Where they would loop does not matter here. -/
def oneShotSource (v : Voice) (ram : Ram) (m : Moment) : BlockSource :=
  v.keyOn.stream.source ram (v.keyOn.startAddress m) fun _ ↦ 0

theorem eventAt_zero : v.eventAt moments 0 = .none := by
  have hd : ¬ (v.playbackAt moments 0).Decodes := Playback.not_decodes_of_age_zero rfl
  rw [eventAt, Playback.event, if_neg hd]

theorem on_zero : (v.voiceAt moments 0).envelope.stage ≠ .off := nofun

theorem reportsAt_zero (h : Undisturbed moments ram) : v.reportsAt moments 0 = false := by
  have hr := (eventAt_iff h (v := v) on_zero).1
  rw [eventAt_zero] at hr
  simpa using hr

theorem on_one (h : Undisturbed moments ram) : (v.voiceAt moments 1).envelope.stage ≠ .off := by
  have hs := (eventAt_iff h (v := v) on_zero).2
  rw [eventAt_zero] at hs
  simpa using hs

theorem interpolate_silence (phase : Fin 256) : Interpolation.interpolate phase 0 0 0 0 = 0 := by
  have hw (weight : Nat) : Interpolation.weigh weight 0 = 0 := by simp [Interpolation.weigh]
  simp only [Interpolation.interpolate, hw]
  decide

variable (h : Undisturbed moments ram) (ho : OneShot ram (v.keyOn.startAddress (moments 0)) blocks)

include h ho

theorem reads_playbackAt (hon : (v.voiceAt moments (n + 1)).envelope.stage ≠ .off) :
    (v.playbackAt moments (n + 1)).tape.Reads (v.oneShotSource ram (moments 0)) v.keyOn.stream.ring.toList
        (4 * v.groupsAt moments n) ∧
      (v.playbackAt moments (n + 1)).tape.Place (v.oneShotSource ram (moments 0)) (v.groupsAt moments n) := by
  induction n with
  | zero =>
    rw [groupsAt_zero]
    exact ⟨v.keyOn.stream.reads_restart ram _ _, .sounding rfl rfl rfl⟩
  | succ n ih =>
    have hon' := mt off_succ hon
    obtain ⟨hr, hp⟩ := ih hon'
    have hl := hr.length_samples
    by_cases hd : (v.playbackAt moments (n + 1)).Decodes
    · obtain ⟨hs, -⟩ := Playback.reads_clock (i := v.inputAt moments (n + 1)) hr hp (h.ram (n + 1))
        (fun hc ↦ absurd hc (BlockSource.not_closes_loop_of_oneShot ho)) hd
      rw [(decodes_playbackAt v moments hl).1 hd]
      exact hs (mt (eventAt_iff h hon').2.2 hon)
    · have hage : 1 ≤ (v.playbackAt moments (n + 1)).age := by
        rw [age_playbackAt]
        omega
      have hg : v.groupsAt moments (n + 1) = v.groupsAt moments n := by
        have hn := mt (decodes_playbackAt v moments hl).2 hd
        have hs := v.groupsAt_succ moments n
        omega
      rw [hg, playbackAt, Playback.tape_clock hage, if_neg hd]
      exact ⟨hr, hp⟩

theorem eventAt_succ (hon : (v.voiceAt moments (n + 1)).envelope.stage ≠ .off) :
    v.eventAt moments (n + 1) ≠ .looped ∧
      (v.eventAt moments (n + 1) = .ended ↔
        v.groupsAt moments n < 4 * blocks ∧ 4 * blocks ≤ v.groupsAt moments (n + 1)) ∧
      (v.eventAt moments (n + 1) = .finished ↔
        v.groupsAt moments n < 4 * blocks + 3 ∧ 4 * blocks + 3 ≤ v.groupsAt moments (n + 1)) := by
  obtain ⟨hr, hp⟩ := reads_playbackAt h ho hon
  have hd := decodes_playbackAt v moments hr.length_samples
  have hs := v.groupsAt_succ moments n
  by_cases hdec : (v.playbackAt moments (n + 1)).Decodes
  · obtain ⟨-, ht⟩ := Playback.reads_clock (i := v.inputAt moments (n + 1)) hr hp (h.ram (n + 1))
      (fun hc ↦ absurd hc (BlockSource.not_closes_loop_of_oneShot ho)) hdec
    obtain ⟨hl, he, hf⟩ := ht.of_oneShot ho
    have hg := hd.1 hdec
    rw [eventAt, he, hf]
    exact ⟨hl, by omega, by omega⟩
  · have hg := mt hd.2 hdec
    rw [eventAt, Playback.event, if_neg hdec]
    exact ⟨by decide, iff_of_false (by decide) (by omega), iff_of_false (by decide) (by omega)⟩

theorem off_iff_groupsAt (n : Nat) :
    (v.voiceAt moments (n + 1)).envelope.stage = .off ↔ 4 * blocks + 3 ≤ v.groupsAt moments n := by
  have hpos := ho.nonempty
  induction n with
  | zero => exact iff_of_false (on_one h) (by rw [groupsAt_zero]; omega)
  | succ n ih =>
    have hs := v.groupsAt_succ moments n
    by_cases hon : (v.voiceAt moments (n + 1)).envelope.stage = .off
    · have hg := ih.1 hon
      exact iff_of_true (off_succ hon) (by omega)
    · have hg := mt ih.2 hon
      rw [(eventAt_iff h hon).2, (eventAt_succ h ho hon).2.2]
      omega

theorem reportsAt_iff_groupsAt (n : Nat) :
    v.reportsAt moments (n + 1) = true ↔
      v.groupsAt moments n < 4 * blocks ∧ 4 * blocks ≤ v.groupsAt moments (n + 1) := by
  by_cases hon : (v.voiceAt moments (n + 1)).envelope.stage = .off
  · have hg := (off_iff_groupsAt h ho n).1 hon
    have hr := (contained_voiceAt v moments (n + 1)).rests hon
    obtain ⟨-, -, hf⟩ := (hr.receive (moments (n + 1))).clock (moments (n + 1)).ram (moments (n + 1)).tick
    rw [reportsAt, poised, hf]
    exact iff_of_false nofun (by omega)
  · obtain ⟨hl, he, -⟩ := eventAt_succ h ho hon
    rw [(eventAt_iff h hon).1, or_iff_right hl, he]

theorem value_of_behind (hon : (v.voiceAt moments (n + 1)).envelope.stage ≠ .off) {i : Nat} (hi : 16 * blocks ≤ i) :
    (v.playbackAt moments (n + 1)).value i = 0 := by
  have hz : (v.oneShotSource ram (moments 0)).sample i = 0 := BlockSource.sample_of_oneShot ho hi
  rw [Playback.value, (reads_playbackAt h ho hon).1.samples, BlockSource.samples, List.getD_eq_getElem?_getD,
    List.getElem?_map]
  by_cases hlt : i < 4 * v.groupsAt moments n
  · rw [List.getElem?_range hlt, Option.map_some, hz]
    rfl
  · rw [List.getElem?_eq_none (by rw [List.length_range]; omega)]
    rfl

theorem output_of_behind (hon : (v.voiceAt moments n).envelope.stage ≠ .off)
    (hb : (16 * blocks : Int) * 0x1000 ≤ v.travelled moments n) : (v.voiceAt moments (n + 1)).output = 0 := by
  have hpos := ho.nonempty
  have hn : 5 < n := by
    refine Decidable.byContradiction fun hn ↦ ?_
    rw [travelled_of_starting v moments (by omega)] at hb
    omega
  obtain ⟨n, rfl⟩ : ∃ k, n = k + 1 := ⟨n - 1, by omega⟩
  have hage : 5 ≤ (v.playbackAt moments (n + 1)).age := by
    rw [age_playbackAt]
    omega
  have hf := follows_poised hon
  have hon' : (v.poised moments (n + 1)).envelope.stage ≠ .off := by
    rw [stage_poised h]
    exact hon
  have hv {i : Nat} (hi : 16 * blocks ≤ i) := value_of_behind h ho hon hi
  have hi : 16 * blocks ≤ ((v.playbackAt moments (n + 1)).position / 4096).toNat := by
    rw [position_playbackAt]
    omega
  have hs : (v.poised moments (n + 1)).interpolated = 0 := by
    rw [(hf.interpolated hage).2.2, Playback.sample, hv hi, hv (by omega), hv (by omega), hv (by omega),
      interpolate_silence]
  have hout := output_clock (hf.startDelay hage) hon' (h.noise (n + 1)) (moments (n + 1)).ram
  rw [hs, Int.zero_mul] at hout
  exact hout

theorem off_iff_travelled (n : Nat) :
    (v.voiceAt moments (n + 1)).envelope.stage = .off ↔ (16 * blocks : Int) * 0x1000 ≤ v.travelled moments n := by
  have hpos := ho.nonempty
  rw [off_iff_groupsAt h ho, le_groupsAt_iff v moments (by omega)]
  omega

theorem on_of_travelled_lt (hlt : ∀ i < n, v.travelled moments i < (16 * blocks : Int) * 0x1000) :
    (v.voiceAt moments n).envelope.stage ≠ .off := by
  cases n with
  | zero => exact on_zero
  | succ n =>
    have hn := hlt n (Nat.lt_succ_self n)
    rw [Ne, off_iff_travelled h ho]
    omega

end Undisturbed

/-- At `n`, and not before, the position has come to the bound. -/
def FirstReaches (position : Nat → Int) (bound : Int) (n : Nat) : Prop :=
  bound ≤ position n ∧ ∀ i < n, position i < bound

instance (position : Nat → Int) (bound : Int) (n : Nat) : Decidable (FirstReaches position bound n) :=
  inferInstanceAs (Decidable (_ ∧ _))

section FirstReaches

variable {position : Nat → Int} {bound : Int} {n : Nat}

theorem firstReaches_succ_iff (h : ∀ {i n}, i ≤ n → position i ≤ position n) :
    FirstReaches position bound (n + 1) ↔ position n < bound ∧ bound ≤ position (n + 1) := by
  constructor
  · rintro ⟨hb, hi⟩
    exact ⟨hi n (Nat.lt_succ_self n), hb⟩
  · rintro ⟨hlt, hb⟩
    exact ⟨hb, fun i hi ↦ Int.lt_of_le_of_lt (h (Nat.le_of_lt_succ hi)) hlt⟩

theorem reached_iff (h : ∀ {i n}, i ≤ n → position i ≤ position n) :
    bound ≤ position n ↔ ∃ i ≤ n, FirstReaches position bound i := by
  constructor
  · induction n with
    | zero => exact fun hb ↦ ⟨0, Nat.le_refl 0, hb, nofun⟩
    | succ n ih =>
      intro hb
      by_cases hn : bound ≤ position n
      · obtain ⟨i, hi, hf⟩ := ih hn
        exact ⟨i, Nat.le_succ_of_le hi, hf⟩
      · exact ⟨n + 1, Nat.le_refl _, (firstReaches_succ_iff h).2 ⟨Int.not_le.1 hn, hb⟩⟩
  · rintro ⟨i, hi, hb, -⟩
    exact Int.le_trans hb (h hi)

end FirstReaches

/-- A sample that does not loop is heard completely, and then its voice stops. The tick that reports the end, and sets
the voice's bit in the register of ended samples, is the first one with no more than twelve samples of data left.
The voice is on until the first tick with nothing left; that tick is silent, and after it the voice rests. -/
theorem oneShot_heard (v : Voice) {moments : Nat → Moment} {ram : Ram} {blocks : Nat} (h : Undisturbed moments ram)
    (ho : OneShot ram (v.keyOn.startAddress (moments 0)) blocks) (n : Nat) :
    let position := v.travelled moments
    let after := v.voiceAt moments (n + 1)
    let ends := FirstReaches position ((16 * blocks - 12) * 0x1000)
    let stops := FirstReaches position (16 * blocks * 0x1000)
    (v.reportsAt moments n = true ↔ ends n) ∧
      (∀ (d : Dsp) (i : Fin 8), d.voices.get i = v.poised moments n → d.voiceTick i = (moments n).tick →
        (d.clockVoice ram i).voices.get i = after ∧
          (Bit.test (d.clockVoice ram i).ended i = true ↔ Bit.test d.ended i = true ∨ ends n)) ∧
      (after.envelope.stage = .off ↔ ∃ i ≤ n, stops i) ∧
      (stops n → after.envelope.level = 0 ∧ ∀ rest : List Moment,
        after.Rests (rest.foldl live after) ∧ (rest.foldl live after).output = 0) := by
  intro position after ends stops
  have hpos := ho.nonempty
  have hmono : ∀ {i n}, i ≤ n → position i ≤ position n := v.travelled_mono moments
  have hreport : v.reportsAt moments n = true ↔ ends n := by
    cases n with
    | zero =>
      rw [reportsAt_zero h]
      refine iff_of_false nofun fun he ↦ ?_
      have hb : ((16 * blocks - 12) * 0x1000 : Int) ≤ 0 := he.1
      omega
    | succ n =>
      have hle (n : Nat) := v.le_groupsAt_iff moments (n := n) (k := 4 * blocks) (by omega)
      change _ ↔ FirstReaches position _ (n + 1)
      rw [reportsAt_iff_groupsAt h ho, firstReaches_succ_iff hmono, ← Nat.not_le, hle, hle]
      change ¬ _ ≤ position n ∧ _ ≤ position (n + 1) ↔ _
      omega
  have hstop : after.envelope.stage = .off ↔ ∃ i ≤ n, stops i := by
    rw [off_iff_travelled h ho]
    exact reached_iff hmono
  refine ⟨hreport, fun d i hv ht ↦ ⟨?_, ?_⟩, hstop, fun hs ↦ ?_⟩
  · rw [Dsp.get_clockVoice, if_pos rfl, hv, ht, ← h.ram n]
    rfl
  · rw [Dsp.test_ended_clockVoice, hv, ht, ← hreport, reportsAt, h.ram n]
    simp
  · have hoff := hstop.2 ⟨n, Nat.le_refl n, hs⟩
    have hr := (contained_voiceAt v moments (n + 1)).rests hoff
    have hout := output_of_behind h ho (on_of_travelled_lt h ho hs.2) hs.1
    exact ⟨hr.level, fun rest ↦ hr.foldl_live hout rest⟩

/-- One block at the address 0, which the directory at 0x100 points to, played at two samples a tick. -/
def oneBlockMoment : Moment where
  ram := (Ram.zero.write 0 0xC1).write 1 0x12
  tick := { counter := 0, directory := 0x100, noise := none, modulator := none }

theorem oneShot_heard_oneBlock :
    let v : Voice := { pitch := 0x2000 }
    let moments := fun _ : Nat ↦ oneBlockMoment
    Undisturbed moments oneBlockMoment.ram ∧ OneShot oneBlockMoment.ram (v.keyOn.startAddress (moments 0)) 1 ∧
      v.reportsAt moments 7 = true ∧ (v.voiceAt moments 13).envelope.stage ≠ .off ∧
      (v.voiceAt moments 14).envelope.stage = .off := by
  intro v moments
  have h : Undisturbed moments oneBlockMoment.ram := ⟨fun _ ↦ rfl, fun _ ↦ rfl, fun _ ↦ rfl⟩
  have ho : OneShot oneBlockMoment.ram (v.keyOn.startAddress (moments 0)) 1 := by
    refine ⟨by decide, fun b hb ↦ by omega, ?_, ?_⟩ <;> decide +kernel
  have he : FirstReaches (v.travelled moments) ((16 * (1 : Nat) - 12) * 0x1000) 7 := by decide +kernel
  have hs : FirstReaches (v.travelled moments) (16 * (1 : Nat) * 0x1000) 13 := by decide +kernel
  obtain ⟨hr, -⟩ := oneShot_heard v h ho 7
  obtain ⟨-, -, h₁₃, -⟩ := oneShot_heard v h ho 12
  obtain ⟨-, -, h₁₄, -⟩ := oneShot_heard v h ho 13
  have e₁₃ : 12 + 1 = 13 := rfl
  have e₁₄ : 13 + 1 = 14 := rfl
  rw [e₁₃] at h₁₃
  rw [e₁₄] at h₁₄
  refine ⟨h, ho, hr.2 he, fun hoff ↦ ?_, h₁₄.2 ⟨13, Nat.le_refl 13, hs⟩⟩
  obtain ⟨i, hi, hb, -⟩ := h₁₃.1 hoff
  exact absurd (hs.2 i (by omega)) (Int.not_lt.2 hb)

end Voice

end SoundUnit
