import SoundUnit.Dsp.Generation
import SoundUnit.Proofs.Voice.Equations
import SoundUnit.Proofs.Voice.Tape

namespace SoundUnit

/-- A plain resampler: all the samples since the key-on and the position among them. -/
structure Playback where
  tape : Tape
  age : Nat := 0
  /-- In units of 1/4096 of a sample. -/
  position : Int := 0

namespace Playback

structure Input where
  ram : Ram
  start : UInt16
  loop : UInt16
  step : Int

/-- No step goes beyond the next two groups. -/
def cutStep (p : Playback) (step : Int) : Int := min step (0x7FFF - p.position % 0x4000)

def fetch (p : Playback) (i : Input) : Tape :=
  if p.tape.samples.length ≤ p.position / 4096 + 8 then (p.tape.decodeGroup i.ram i.loop).1 else p.tape

/-- A tick. In the first five the first three groups are decoded; then the position starts to move. -/
def clock (p : Playback) (i : Input) : Playback :=
  if p.age = 0 then { p with tape := p.tape.restart i.start, age := 1 }
  else if p.age ≤ 3 then { p with tape := (p.tape.decodeGroup i.ram i.loop).1, age := p.age + 1 }
  else if p.age = 4 then { p with age := 5 }
  else { tape := p.fetch i, age := p.age + 1, position := p.position + p.cutStep i.step }

theorem clock_of_starting {p : Playback} (h : p.age ≠ 0) (h' : p.age ≤ 3) (i : Input) :
    p.clock i = { p with tape := (p.tape.decodeGroup i.ram i.loop).1, age := p.age + 1 } := by
  rw [clock, if_neg h, if_pos h']

theorem clock_of_playing {p : Playback} (h : 5 ≤ p.age) (i : Input) :
    p.clock i = { tape := p.fetch i, age := p.age + 1, position := p.position + p.cutStep i.step } := by
  rw [clock, if_neg (by omega), if_neg (by omega), if_neg (by omega)]

theorem age_clock (p : Playback) (i : Input) : (p.clock i).age = p.age + 1 := by
  unfold clock
  split
  next h => rw [h]
  next =>
    split
    next => rfl
    next =>
      split
      next h => rw [h]
      next => rfl

def value (p : Playback) (n : Nat) : Int := (p.tape.samples.getD n 0).toInt

theorem phase_lt (p : Playback) : (p.position / 16 % 256).toNat < 256 := by omega

def sample (p : Playback) : Int :=
  let n := (p.position / 4096).toNat
  Interpolation.interpolate ⟨(p.position / 16 % 256).toNat, p.phase_lt⟩ (p.value n) (p.value (n + 1))
    (p.value (n + 2)) (p.value (n + 3))

end Playback

/-- A tick with what happens before it: registers are written, and the voice may be keyed off. -/
structure Moment where
  writes : List (UInt8 × VoiceRegister) := []
  keyOff : Bool := false
  ram : Ram
  tick : Voice.Tick

namespace Voice

def receive (v : Voice) (m : Moment) : Voice :=
  (m.writes.foldl (fun v w ↦ v.writeRegister w.1 w.2) v).applyKeys m.keyOff false

def live (v : Voice) (m : Moment) : Voice := ((v.receive m).clock m.ram m.tick).1

def input (v : Voice) (ram : Ram) (tick : Tick) : Playback.Input where
  ram := ram
  start := readAddress ram (v.directoryEntry tick.directory)
  loop := v.loopAddress ram tick.directory
  step := v.step tick.modulator

def startAddress (v : Voice) (m : Moment) : UInt16 :=
  readAddress m.ram ((v.receive m).directoryEntry m.tick.directory)

def playback (v : Voice) : Playback where
  tape := { block := 0, past := v.stream.ring.toList }

def resample : Voice → Playback → List Moment → Playback
  | _, p, [] => p
  | v, p, m :: moments => resample (v.live m) (p.clock ((v.receive m).input m.ram m.tick)) moments

theorem receive_related {R : Voice → Voice → Prop}
    (hw : ∀ v w data r, R v w → R (writeRegister v data r) (writeRegister w data r)) {m : Moment}
    (hk : m.keyOff = true → ∀ v w, R v w → R (keyOff v) (keyOff w)) {v w : Voice} (h : R v w) :
    R (v.receive m) (w.receive m) := by
  have hl (writes : List (UInt8 × VoiceRegister)) :
      R (writes.foldl (fun v w ↦ v.writeRegister w.1 w.2) v) (writes.foldl (fun v w ↦ v.writeRegister w.1 w.2) w) := by
    induction writes generalizing v w with
    | nil => exact h
    | cons write writes ih => exact ih (hw v w write.1 write.2 h)
  unfold receive
  cases he : m.keyOff
  · exact hl m.writes
  · exact hk he _ _ (hl m.writes)

theorem receive_invariant {P : Voice → Prop} (hw : ∀ v data r, P v → P (writeRegister v data r)) {m : Moment}
    (hk : m.keyOff = true → ∀ v, P v → P (keyOff v)) {v : Voice} (h : P v) : P (v.receive m) :=
  receive_related (R := fun v _ ↦ P v) (fun v _ data r ↦ hw v data r) (fun he v _ ↦ hk he v) (w := v) h

theorem receive_keeps {α : Type} {f : Voice → α} (hw : ∀ v data r, f (writeRegister v data r) = f v) {m : Moment}
    (hk : m.keyOff = true → ∀ v, f (keyOff v) = f v) (v : Voice) : f (v.receive m) = f v :=
  receive_invariant (P := fun w ↦ f w = f v) (fun w data r h ↦ (hw w data r).trans h)
    (fun he w h ↦ (hk he w).trans h) rfl

theorem stream_receive (v : Voice) (m : Moment) : (v.receive m).stream = v.stream :=
  receive_keeps (fun _ _ r ↦ by cases r <;> rfl) (fun _ _ ↦ rfl) v

theorem counter_receive (v : Voice) (m : Moment) : (v.receive m).counter = v.counter :=
  receive_keeps (fun _ _ r ↦ by cases r <;> rfl) (fun _ _ ↦ rfl) v

theorem startDelay_receive (v : Voice) (m : Moment) : (v.receive m).startDelay = v.startDelay :=
  receive_keeps (fun _ _ r ↦ by cases r <;> rfl) (fun _ _ ↦ rfl) v

/-- The voice and the resampler agree: the voice waits for its first tick, or it has decoded some of its first three
groups, or it plays and its counter is the position, counted from the samples that are still in the ring. -/
inductive Follows (v : Voice) : Playback → Prop
  | keyed (hd : v.startDelay = keyOnDelay) : Follows v v.playback
  | starting {t : Tape} {n : Nat} (hn : n < 4) (hd : v.startDelay = UInt8.ofNat (4 - n)) (ht : v.stream.Holds t)
      (hl : t.samples.length = 4 * n) (ho : t.offset = UInt16.ofNat (1 + 2 * n)) (htail : t.tail = 0)
      (hc : v.counter = 0) : Follows v { tape := t, age := n + 1 }
  | playing {t : Tape} {age n : Nat} {position : Int} (hd : v.startDelay = 0) (ht : v.stream.Holds t) (hage : 5 ≤ age)
      (hl : t.samples.length = 4 * (n + 3)) (hc : v.counter.toNat ≤ 0x7FFF)
      (hp : position = v.counter.toNat + 0x4000 * n) : Follows v { tape := t, age, position }

namespace Follows

variable {v : Voice} {p : Playback}

theorem congr {v' : Voice} (h : v.Follows p) (hs : v'.stream = v.stream) (hc : v'.counter = v.counter)
    (hd : v'.startDelay = v.startDelay) : v'.Follows p := by
  cases h with
  | keyed hd' =>
    have hp : v.playback = v'.playback := by
      unfold playback
      rw [hs]
    rw [hp]
    exact .keyed (hd.trans hd')
  | starting hn hd' ht hl ho htail hc' =>
    exact .starting hn (hd.trans hd') (hs ▸ ht) hl ho htail (hc.trans hc')
  | playing hd' ht hage hl hc' hp =>
    rw [← hc] at hc' hp
    exact .playing (hd.trans hd') (hs ▸ ht) hage hl hc' hp

theorem receive (h : v.Follows p) (m : Moment) : (v.receive m).Follows p :=
  h.congr (v.stream_receive m) (v.counter_receive m) (v.startDelay_receive m)

theorem clock_keyed (hd : v.startDelay = keyOnDelay) (ram : Ram) (tick : Tick) :
    (v.clock ram tick).1.Follows (v.playback.clock (v.input ram tick)) := by
  rw [clock_of_keyed hd]
  unfold restarted
  rw [if_pos hd]
  exact .starting (n := 0) (by decide) (congrArg (· - 1) hd) (v.stream.holds_restart _ 0) rfl rfl rfl rfl

theorem starting_delay : ∀ n < 3, UInt8.ofNat (4 - n) ≠ keyOnDelay ∧ 0 < UInt8.ofNat (4 - n) ∧
    UInt8.ofNat (4 - n) - 1 = UInt8.ofNat (3 - n) ∧ 1 ≤ UInt8.ofNat (3 - n) ∧ UInt8.ofNat (3 - n) ≤ 3 := by decide

theorem clock_warming {t : Tape} {n : Nat} (hn : n < 3) (hd : v.startDelay = UInt8.ofNat (4 - n))
    (ht : v.stream.Holds t) (hl : t.samples.length = 4 * n) (ho : t.offset = UInt16.ofNat (1 + 2 * n))
    (htail : t.tail = 0) (hc : v.counter = 0) (ram : Ram) (tick : Tick) :
    (v.clock ram tick).1.Follows (Playback.clock { tape := t, age := n + 1 } (v.input ram tick)) := by
  obtain ⟨hne, hpos, hsub, hle, hle'⟩ := starting_delay n hn
  obtain ⟨hnext, hlt⟩ := Tape.offset_cases n (Nat.lt_succ_of_lt hn)
  have hin := hlt.2 (Nat.ne_of_lt hn)
  rw [← hd] at hne hpos hsub
  rw [← hsub] at hle hle'
  rw [← ho] at hin hnext
  have he := t.decodeGroup_of_sounding htail ram (v.loopAddress ram tick.directory)
  rw [Tape.advance_of_lt (t := t.appendData ram _) hin] at he
  have hlen := t.length_samples_decodeGroup ram (v.loopAddress ram tick.directory) (by rw [he]; exact nofun)
  have ho' : (t.decodeGroup ram (v.loopAddress ram tick.directory)).1.offset = t.offset + 2 := by rw [he]; rfl
  have ht' : (t.decodeGroup ram (v.loopAddress ram tick.directory)).1.tail = t.tail := by rw [he]; rfl
  obtain ⟨hg, hev⟩ := ht.decodeGroup ram (v.loopAddress ram tick.directory)
  generalize hs : v.stream.decodeGroup ram (v.loopAddress ram tick.directory) = r at hg hev
  obtain ⟨stream, event⟩ := r
  have hnone : event = .none := hev.trans (congrArg Prod.snd he)
  have hw := warmUp_of_decode (v := v.countDown) ⟨hle, hle'⟩ (hnone ▸ hs)
  rw [clock_of_counting v ram tick hpos hne, hw,
    Playback.clock_of_starting (Nat.succ_ne_zero n) (by dsimp only; omega)]
  refine .starting (n := n + 1) (by omega) ?_ hg ?_ (ho'.trans hnext) (ht'.trans htail) hc
  · have hn' : 4 - (n + 1) = 3 - n := by omega
    rw [hn']
    exact hsub
  · exact hlen.trans (by omega)

theorem clock_started {t : Tape} (hd : v.startDelay = 1) (ht : v.stream.Holds t) (hl : t.samples.length = 12)
    (hc : v.counter = 0) (ram : Ram) (tick : Tick) :
    (v.clock ram tick).1.Follows (Playback.clock { tape := t, age := 4 } (v.input ram tick)) := by
  have hs : v.startDelay - 1 = 0 := by
    rw [hd]
    rfl
  have hw : ¬ (1 ≤ v.countDown.startDelay ∧ v.countDown.startDelay ≤ 3) := by
    change ¬ (1 ≤ v.startDelay - 1 ∧ v.startDelay - 1 ≤ 3)
    rw [hs]
    decide
  rw [clock_of_counting v ram tick (by rw [hd]; decide) (by rw [hd]; decide)]
  unfold warmUp
  rw [if_neg hw]
  refine .playing (n := 0) hs ht (Nat.le_refl 5) hl ?_ ?_
  · change v.counter.toNat ≤ 0x7FFF
    rw [hc]
    decide
  · change (0 : Int) = v.counter.toNat + 0x4000 * (0 : Nat)
    rw [hc]
    rfl

theorem refill_cases {t : Tape} (age : Nat) {n : Nat} {position : Int} (ht : v.stream.Holds t)
    (hl : t.samples.length = 4 * (n + 3)) (hc : v.counter.toNat ≤ 0x7FFF)
    (hp : position = v.counter.toNat + 0x4000 * n) (i : Playback.Input) (directory : UInt16)
    (hi : i.loop = v.loopAddress i.ram directory) :
    (v.refill i.ram directory).1.envelope.stage = .off ∨
      ∃ stream k, (v.refill i.ram directory).1 = v.withStream stream ∧
        stream.Holds (Playback.fetch { tape := t, age, position } i) ∧
        (Playback.fetch { tape := t, age, position } i).samples.length = 4 * (k + 3) ∧
        v.counter.toNat + 0x4000 * n = v.counter.toNat % 0x4000 + 0x4000 * k := by
  unfold refill Playback.fetch
  dsimp only
  by_cases h : 0x4000 ≤ v.counter.toNat
  · have hf : (t.samples.length : Int) ≤ position / 4096 + 8 := by omega
    obtain ⟨hg, hev⟩ := ht.decodeGroup i.ram i.loop
    rw [if_pos (groupLength_le_iff.2 h), if_pos hf]
    generalize hs : v.stream.decodeGroup i.ram i.loop = r at hg hev
    obtain ⟨stream, event⟩ := r
    rw [hi] at hs
    rw [decode_of hs]
    by_cases he : event = .finished
    · left
      rw [if_pos he]
      rfl
    · right
      rw [if_neg he]
      refine ⟨stream, n + 1, rfl, hg, ?_, by omega⟩
      rw [t.length_samples_decodeGroup i.ram i.loop (hev ▸ he), hl]
      omega
  · have hf : ¬ (t.samples.length : Int) ≤ position / 4096 + 8 := by omega
    right
    rw [if_neg (mt groupLength_le_iff.1 h), if_neg hf]
    exact ⟨v.stream, n, rfl, ht, hl, by omega⟩

theorem clock_playing {t : Tape} {age n : Nat} {position : Int} (hd : v.startDelay = 0) (ht : v.stream.Holds t)
    (hage : 5 ≤ age) (hl : t.samples.length = 4 * (n + 3)) (hc : v.counter.toNat ≤ 0x7FFF)
    (hp : position = v.counter.toNat + 0x4000 * n) (ram : Ram) (tick : Tick) (ho : v.envelope.stage ≠ .off)
    (ho' : (v.clock ram tick).1.envelope.stage ≠ .off) :
    (v.clock ram tick).1.Follows (Playback.clock { tape := t, age, position } (v.input ram tick)) := by
  rw [clock_of_playing v ram tick (not_starting hd) ho, play_eq, advance_eq] at ho' ⊢
  rw [Playback.clock_of_playing hage]
  rcases refill_cases (v := v.sounded tick) age ht hl hc hp (v.input ram tick) tick.directory rfl with
    hoff | ⟨stream, k, hr, hg, hlen, hk⟩
  · have hm := congrArg Envelope.stage (envelope_move ((v.sounded tick).refill ram tick.directory).1 tick.modulator)
    exact absurd (hm.trans hoff) ho'
  · have hr' : ((v.sounded tick).refill ram tick.directory).1 = (v.sounded tick).withStream stream := hr
    rw [hr'] at ho' ⊢
    have hon : ((v.sounded tick).withStream stream).envelope.stage ≠ .off := by
      have hm := envelope_move ((v.sounded tick).withStream stream) tick.modulator
      rw [← hm]
      exact ho'
    have hn : ((((v.sounded tick).withStream stream).nextCounter tick.modulator).toNat : Int) =
        min 0x7FFF (v.counter.toNat % 0x4000 + v.step tick.modulator) := toNat_nextCounter _
    have hs := v.step_nonneg tick.modulator
    have hk' : v.counter.toNat + 0x4000 * n = v.counter.toNat % 0x4000 + 0x4000 * k := hk
    rw [move_of_on hon]
    refine .playing (n := k) hd hg (Nat.le_succ_of_le hage) hlen ?_ ?_
    · change (((v.sounded tick).withStream stream).nextCounter tick.modulator).toNat ≤ 0x7FFF
      omega
    · change position + min (v.step tick.modulator) (0x7FFF - position % 0x4000) =
        (((v.sounded tick).withStream stream).nextCounter tick.modulator).toNat + 0x4000 * k
      rw [hn, hp]
      omega

theorem clock (h : v.Follows p) (ram : Ram) (tick : Tick) (ho : v.envelope.stage ≠ .off)
    (ho' : (v.clock ram tick).1.envelope.stage ≠ .off) : (v.clock ram tick).1.Follows (p.clock (v.input ram tick)) := by
  cases h with
  | keyed hd => exact clock_keyed hd ram tick
  | starting hn hd ht hl hoff htail hc =>
    rcases Nat.lt_or_eq_of_le (Nat.le_of_lt_succ hn) with hlt | rfl
    · exact clock_warming hlt hd ht hl hoff htail hc ram tick
    · exact clock_started hd ht hl hc ram tick
  | playing hd ht hage hl hc hp => exact clock_playing hd ht hage hl hc hp ram tick ho ho'

end Follows

theorem off_receive {v : Voice} (h : v.envelope.stage = .off) (m : Moment) : (v.receive m).envelope.stage = .off :=
  receive_invariant (P := fun w ↦ w.envelope.stage = .off) (fun w data r h ↦ (w.stage_writeRegister data r).trans h)
    (fun _ _ h ↦ if_pos h) h

theorem follows_resample {v : Voice} {p : Playback} (h : v.envelope.stage ≠ .off → v.Follows p) (moments : List Moment)
    (ho : (moments.foldl live v).envelope.stage ≠ .off) :
    (moments.foldl live v).Follows (resample v p moments) := by
  induction moments generalizing v p with
  | nil => exact h ho
  | cons m moments ih =>
    refine ih (fun ho' ↦ ?_) ho
    have hon : (v.receive m).envelope.stage ≠ .off := fun hoff ↦ ho' (off_clock hoff m.ram m.tick)
    have hon' : v.envelope.stage ≠ .off := fun hoff ↦ hon (off_receive hoff m)
    exact ((h hon').receive m).clock m.ram m.tick hon ho'

theorem age_resample (v : Voice) (p : Playback) (moments : List Moment) :
    (resample v p moments).age = p.age + moments.length := by
  induction moments generalizing v p with
  | nil => rfl
  | cons m moments ih =>
    rw [resample, ih, Playback.age_clock, List.length_cons]
    omega

/-- After the start the ring holds the last twelve samples, and the counter is the position among them. -/
theorem Follows.window {v : Voice} {p : Playback} (h : v.Follows p) (hage : 5 ≤ p.age) :
    12 ≤ p.tape.samples.length ∧
      (∀ n < 12, p.tape.samples[p.tape.samples.length - 12 + n]? = some (v.stream.get n)) ∧
      v.counter.toNat ≤ 0x7FFF ∧
      ∃ k : Nat, p.tape.samples.length - 12 = 4 * k ∧ p.position = v.counter.toNat + 0x4000 * k := by
  cases h with
  | keyed => exact absurd hage (Nat.not_succ_le_zero 4)
  | starting hn =>
    dsimp only at hage
    omega
  | @playing t age k position hd ht _ hl hc hp =>
    have hlen : 12 ≤ t.samples.length := by omega
    refine ⟨hlen, fun n hn ↦ ?_, hc, k, by dsimp only; omega, hp⟩
    have hi : t.samples.length - 12 + n = t.samples.length - 1 - (11 - n) := by omega
    rw [ht.ring n hn]
    dsimp only
    rw [hi]
    exact t.back_eq (by omega)

theorem Follows.interpolated {v : Voice} {p : Playback} (h : v.Follows p) (hage : 5 ≤ p.age) :
    0 ≤ p.position ∧ (p.position / 4096).toNat + 3 < p.tape.samples.length ∧ v.interpolated = p.sample := by
  obtain ⟨hlen, hr, hc, k, hk, hp⟩ := h.window hage
  have hn : (p.position / 4096).toNat = p.tape.samples.length - 12 + v.counter.toNat / 4096 := by omega
  have hv {i : Nat} (hi : v.counter.toNat / 4096 + i < 12) :
      p.value ((p.position / 4096).toNat + i) = (v.stream.get (v.counter.toNat / 4096 + i)).toInt := by
    unfold Playback.value
    rw [hn, Nat.add_assoc, List.getD_eq_getElem?_getD, hr _ hi]
    rfl
  have hphase : Fin.ofNat 256 (v.counter.toNat / 16) = ⟨(p.position / 16 % 256).toNat, p.phase_lt⟩ := by
    refine Fin.ext ?_
    change v.counter.toNat / 16 % 256 = (p.position / 16 % 256).toNat
    omega
  refine ⟨by omega, by omega, ?_⟩
  have h₀ := hv (i := 0) (by omega)
  unfold Voice.interpolated Playback.sample
  dsimp only
  rw [hphase, hv (i := 1) (by omega), hv (i := 2) (by omega), hv (i := 3) (by omega)]
  exact congrArg (Interpolation.interpolate _ · _ _ _) h₀.symm

theorem Follows.startDelay {v : Voice} {p : Playback} (h : v.Follows p) (hage : 5 ≤ p.age) : v.startDelay = 0 := by
  cases h with
  | keyed => exact absurd hage (Nat.not_succ_le_zero 4)
  | starting hn =>
    dsimp only at hage
    omega
  | playing hd => exact hd

/-- A voice that is keyed on plays what a plain resampler plays, whatever the registers, the modulation and the memory
do meanwhile: its ring is the end of the samples decoded since then, its sample is interpolated at the sum of the steps,
and no step goes back. -/
theorem resampled (v : Voice) (before : List Moment) (m : Moment) (h : 5 ≤ before.length) (hn : m.tick.noise = none)
    (ho : ((before.foldl live v.keyOn).receive m).envelope.stage ≠ .off) :
    let u := (before.foldl live v.keyOn).receive m
    let p := resample v.keyOn v.keyOn.playback before
    let samples := p.tape.samples
    0 ≤ u.step m.tick.modulator ∧ 0 ≤ p.cutStep (u.step m.tick.modulator) ∧
      0 ≤ p.position ∧ (p.position / 4096).toNat + 3 < samples.length ∧ u.interpolated = p.sample ∧
      (u.clock m.ram m.tick).1.output =
        Int16.ofInt (Sample.even (p.sample * u.envelope.level.toInt / 2048)) ∧
      ∀ n < 12, samples[samples.length - 12 + n]? = some (u.stream.get n) := by
  intro u p samples
  have hage : 5 ≤ p.age := by
    change 5 ≤ (resample v.keyOn v.keyOn.playback before).age
    rw [age_resample]
    omega
  have hon : (before.foldl live v.keyOn).envelope.stage ≠ .off := fun hoff ↦ ho (off_receive hoff m)
  have hf : u.Follows p := (follows_resample (fun _ ↦ .keyed rfl) before hon).receive m
  have hs := u.step_nonneg m.tick.modulator
  obtain ⟨-, hr, -⟩ := hf.window hage
  obtain ⟨hp, hlen, hi⟩ := hf.interpolated hage
  have hc : 0 ≤ p.cutStep (u.step m.tick.modulator) := by
    unfold Playback.cutStep
    omega
  have hout := output_clock (hf.startDelay hage) ho hn m.ram
  rw [hi] at hout
  exact ⟨hs, hc, hp, hlen, hi, hout, hr⟩

def restingMoment : Moment where
  ram := .zero
  tick := { counter := 0, directory := 0, noise := none, modulator := none }

/-- A block of four falling samples and silence, with its directory entry in front of it. -/
def fallingMoment : Moment :=
  { restingMoment with ram := (((Ram.zero.write 0 8).write 8 0xC0).write 9 0x75).write 10 0x31 }

theorem resampled_six_ticks :
    let v : Voice := { pitch := 0x1000, envelope := { adsr := 0x8F } }
    let before := List.replicate 6 fallingMoment
    let p := resample v.keyOn v.keyOn.playback before
    5 ≤ before.length ∧ fallingMoment.tick.noise = none ∧
      ((before.foldl live v.keyOn).receive fallingMoment).envelope.stage ≠ .off ∧ p.position = 0x1000 ∧
      ((before.foldl live v.keyOn).receive fallingMoment).interpolated = 12278 ∧
      (((before.foldl live v.keyOn).receive fallingMoment).clock fallingMoment.ram fallingMoment.tick).1.output =
        6138 := by
  intro v before p
  have h : 5 ≤ before.length := by decide
  have ho : ((before.foldl live v.keyOn).receive fallingMoment).envelope.stage ≠ .off := by decide +kernel
  have hp : p.position = 0x1000 := by decide +kernel
  have hs : p.sample = 12278 := by decide +kernel
  have hl : ((before.foldl live v.keyOn).receive fallingMoment).envelope.level.toInt = 1024 := by decide +kernel
  obtain ⟨-, -, -, -, hi, hout, -⟩ := resampled v before fallingMoment h rfl ho
  rw [hs] at hi hout
  rw [hl] at hout
  exact ⟨h, rfl, ho, hp, hi, hout⟩

end Voice

end SoundUnit
