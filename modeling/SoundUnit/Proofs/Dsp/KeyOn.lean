import SoundUnit.Proofs.Dsp.Voices
import SoundUnit.Proofs.Voice.Stages

namespace SoundUnit

structure Voice.JustKeyedOn (v : Voice) : Prop where
  startDelay : v.startDelay + 1 = keyOnDelay
  counter : v.counter = 0
  stage : v.envelope.stage = .attack
  level : v.envelope.level = 0
  output : v.output = 0

structure Voice.Stopped (v : Voice) : Prop where
  startDelay : v.startDelay = 0
  stage : v.envelope.stage = .off
  level : v.envelope.level = 0
  output : v.output = 0
  envelopeReadback : v.envelopeReadback = 0
  outputReadback : v.outputReadback = 0

namespace Voice

variable (v : Voice) (ram : Ram) (tick : Tick)

theorem clock_keyOn : (v.keyOn.clock ram tick).1.JustKeyedOn ∧ (v.keyOn.clock ram tick).2 = false := by
  have hr : v.keyOn.restarted ram tick =
      { v.keyOn with
        stream := v.stream.restart (readAddress ram (v.directoryEntry tick.directory))
        counter := 0 } := if_pos rfl
  have hd : keyOnDelay - 1 + 1 = keyOnDelay := by decide
  rw [clock_of_keyed rfl, hr]
  exact ⟨⟨hd, rfl, rfl, rfl, rfl⟩, rfl⟩

theorem clock_stop : (v.stop.clock ram tick).1.Stopped := by
  have hl : UInt8.ofNat ((0 : Int16).toInt / 16 % 256).toNat = 0 := by decide
  have ho : Word.high (0 : Int16).toUInt16 = 0 := by decide
  rw [clock_of_off v.stop ram tick (not_starting rfl) rfl]
  exact ⟨rfl, rfl, rfl, rfl, hl, ho⟩

end Voice

theorem DspRegister.columns_eq_keyOn : ∀ (column : Fin 16) (row : Fin 8),
    columns.get column row = .global .keyOn ↔ column = 12 ∧ row = 4 := by decide

theorem DspRegister.ofAddress_eq_keyOn {addr : UInt8} (h : addr < 0x80) :
    ofAddress addr = .global .keyOn ↔ addr = 0x4C := by
  have hlt : addr.toNat < 128 := UInt8.lt_iff_toNat_lt.1 h
  have he : addr = 0x4C ↔ addr.toNat % 16 = 12 ∧ addr.toNat / 16 % 8 = 4 := by
    rw [← UInt8.toNat_inj]
    change addr.toNat = 76 ↔ _
    omega
  have hc := columns_eq_keyOn (Fin.ofNat 16 addr.toNat) (Fin.ofNat 8 (addr.toNat / 16))
  rw [Fin.ext_iff, Fin.ext_iff] at hc
  exact hc.trans he.symm

namespace Dsp

/-- The time to the next sample: the program writes registers, each by its address, and then the sample is made. -/
structure Period where
  writes : List (UInt8 × UInt8) := []
  ram : Ram

def receive (d : Dsp) (writes : List (UInt8 × UInt8)) : Dsp := writes.foldl (fun d w ↦ d.write w.1 w.2) d

def pass (d : Dsp) (p : Period) : Dsp := ((d.receive p.writes).tick p.ram).1

def RequestsKeyOn (v : Fin 8) (w : UInt8 × UInt8) : Prop := w.1 = 0x4C ∧ Bit.test w.2 v = true

instance (v : Fin 8) (w : UInt8 × UInt8) : Decidable (RequestsKeyOn v w) := inferInstanceAs (Decidable (_ ∧ _))

/-- The sample that is made now starts voice `v`, whatever the voice is doing. -/
def KeysOn (d : Dsp) (ram : Ram) (v : Fin 8) : Prop :=
  ∀ voice : Voice, (((d.withVoice v voice).tick ram).1.voices.get v).JustKeyedOn

section Requests

variable (d : Dsp) (v : Fin 8)

theorem pending_writeGlobal (data : UInt8) {r : GlobalRegister} (h : r ≠ .keyOn) :
    (d.writeGlobal data r).pendingKeyOn = d.pendingKeyOn := by
  cases r
  case keyOn => exact absurd rfl h
  all_goals rfl

theorem pending_writeRegister (data : UInt8) {r : DspRegister} (h : r ≠ .global .keyOn) :
    (d.writeRegister data r).pendingKeyOn = d.pendingKeyOn := by
  cases r with
  | voice v r => rfl
  | tap i => rfl
  | global r => exact d.pending_writeGlobal data fun e ↦ h (congrArg _ e)

theorem pending_write (w : UInt8 × UInt8) :
    Bit.test (d.write w.1 w.2).pendingKeyOn v ↔ Bit.test d.pendingKeyOn v ∨ RequestsKeyOn v w := by
  obtain ⟨addr, data⟩ := w
  simp only [write, RequestsKeyOn]
  by_cases hlt : addr < 0x80
  · rw [if_pos hlt]
    by_cases hr : DspRegister.ofAddress addr = .global .keyOn
    · have ha := (DspRegister.ofAddress_eq_keyOn hlt).1 hr
      have hp : (d.writeRegister data (.global .keyOn)).pendingKeyOn = d.pendingKeyOn ||| data := rfl
      rw [hr, hp, Bit.test_or]
      simp [ha]
    · have ha := mt (DspRegister.ofAddress_eq_keyOn hlt).2 hr
      rw [pending_writeRegister d data hr]
      simp [ha]
  · have ha : addr ≠ 0x4C := by
      rintro rfl
      exact hlt (by decide)
    simp [hlt, ha]

theorem pending_receive (writes : List (UInt8 × UInt8)) :
    Bit.test (d.receive writes).pendingKeyOn v ↔
      Bit.test d.pendingKeyOn v ∨ ∃ w ∈ writes, RequestsKeyOn v w := by
  induction writes generalizing d with
  | nil => simp [receive]
  | cons w writes ih =>
    have h := ih (d.write w.1 w.2)
    rw [pending_write] at h
    simp only [receive, List.foldl_cons] at h ⊢
    rw [h]
    simp [or_assoc]

end Requests

section Tick

variable (d : Dsp) (ram : Ram) (v : Fin 8)

theorem get_withVoice (voice : Voice) : (d.withVoice v voice).voices.get v = voice := by
  rw [withVoice, get_setIfInBounds, if_pos rfl]

theorem keyed_of_not_pending (h : d.softReset ∨ Bit.test d.pendingKeyOn v = false) (voice : Voice) :
    voice.envelope.stage.rank ≤ (d.keyed v voice).envelope.stage.rank ∧
      (d.keyed v voice).startDelay ≤ voice.startDelay := by
  obtain ⟨-, he⟩ | ⟨hr, hp, -⟩ | ⟨-, -, he⟩ := d.keyed_cases v voice
  · rw [he]
    exact ⟨Stage.rank_le_off _, UInt8.zero_le⟩
  · simp [hr, hp] at h
  · rw [he]
    cases Bit.test d.keyOff v
    · exact ⟨Nat.le_refl _, UInt8.le_refl _⟩
    · have ha : Voice.Action.keyOff ≠ .keyOn := by
        intro h
        cases h
      exact ⟨voice.rank_act ha, UInt8.le_refl _⟩

theorem keyed_of_pending (hr : d.softReset = false) (hp : Bit.test d.pendingKeyOn v = true) (voice : Voice) :
    ∃ u : Voice, d.keyed v voice = u.keyOn := by
  obtain ⟨hr', -⟩ | ⟨-, -, hu⟩ | ⟨-, hp', -⟩ := d.keyed_cases v voice
  · simp [hr] at hr'
  · exact hu
  · simp [hp] at hp'

theorem tick_of_not_pending (h : d.softReset ∨ Bit.test d.pendingKeyOn v = false) :
    (d.voices.get v).envelope.stage.rank ≤ ((d.tick ram).1.voices.get v).envelope.stage.rank ∧
      ((d.tick ram).1.voices.get v).startDelay.toNat ≤ (d.voices.get v).startDelay.toNat - 1 := by
  obtain ⟨tick, hv, -⟩ := d.tick_voice ram v
  obtain ⟨hrank, hdelay⟩ := d.keyed_of_not_pending v h (d.voices.get v)
  have hle := UInt8.le_iff_toNat_le.1 hdelay
  have hc := (d.keyed v (d.voices.get v)).startDelay_clock_le ram tick
  rw [hv]
  exact ⟨Nat.le_trans hrank (Voice.rank_clock _ ram tick), by omega⟩

theorem tick_of_pending (hr : d.softReset = false) (hp : Bit.test d.pendingKeyOn v = true) :
    ((d.tick ram).1.voices.get v).JustKeyedOn ∧ Bit.test (d.tick ram).1.ended v = false := by
  obtain ⟨tick, hv, he⟩ := d.tick_voice ram v
  obtain ⟨u, hu⟩ := d.keyed_of_pending v hr hp (d.voices.get v)
  obtain ⟨hk, hn⟩ := u.clock_keyOn ram tick
  rw [hu] at hv he
  rw [hv, he, hr, hp, hn]
  exact ⟨hk, by simp⟩

theorem keysOn_iff : d.KeysOn ram v ↔ d.softReset = false ∧ Bit.test d.pendingKeyOn v = true := by
  constructor
  · intro h
    refine Decidable.byContradiction fun hn ↦ ?_
    have hn' : (d.withVoice v {}).softReset ∨ Bit.test (d.withVoice v {}).pendingKeyOn v = false := by
      change d.softReset ∨ Bit.test d.pendingKeyOn v = false
      cases hr : d.softReset with
      | true => exact .inl rfl
      | false => exact .inr (Bool.eq_false_iff.2 fun hp ↦ hn ⟨hr, hp⟩)
    have hz := ((d.withVoice v {}).tick_of_not_pending ram v hn').2
    have hs := (h {}).startDelay
    rw [get_withVoice, UInt8.toNat_zero, Nat.zero_sub, Nat.le_zero] at hz
    rw [UInt8.toNat_inj.1 (hz.trans UInt8.toNat_zero.symm)] at hs
    exact absurd hs (by decide)
  · rintro ⟨hr, hp⟩ voice
    exact ((d.withVoice v voice).tick_of_pending ram v hr hp).1

theorem not_keysOn_iff : ¬ d.KeysOn ram v ↔ d.softReset ∨ Bit.test d.pendingKeyOn v = false := by
  rw [keysOn_iff]
  cases d.softReset <;> simp

theorem stopped_tick (h : d.softReset) : ((d.tick ram).1.voices.get v).Stopped := by
  obtain ⟨tick, hv, -⟩ := d.tick_voice ram v
  rw [hv, keyed, if_pos h]
  exact Voice.clock_stop _ ram tick

end Tick

theorem pending_foldl_pass {d : Dsp} (h : d.pendingKeyOn = 0) (periods : List Period) :
    (periods.foldl pass d).pendingKeyOn = 0 := by
  induction periods generalizing d with
  | nil => exact h
  | cons p periods ih =>
    have hp : (d.pass p).pendingKeyOn = 0 := by rw [pass, pendingKeyOn_tick]
    rw [List.foldl_cons]
    exact ih hp

theorem read_keyOn (d : Dsp) : d.read 0x4C = d.keyOn := rfl

theorem test_read_flags (d : Dsp) : Bit.test (d.read 0x6C) 7 = d.softReset := rfl

theorem read_ended (d : Dsp) : d.read 0x7C = d.ended := rfl

/-- Key-ons are neither lost nor repeated: whatever happened before, a sample starts a voice if and only if one of the
writes since the sample before asked for it and there is no soft reset. A voice that is started is not kept back by a
key-off, and its end is forgotten; one that is not started only goes on. The register reads back what was written to it
all the time. A soft reset stops every voice and forgets the requests. -/
theorem keyOn_exactly_once (d : Dsp) (h : d.pendingKeyOn = 0) (periods : List Period) (p : Period) (v : Fin 8) :
    let e := (periods.foldl pass d).receive p.writes
    let after := (e.tick p.ram).1
    (e.KeysOn p.ram v ↔ (∃ w ∈ p.writes, RequestsKeyOn v w) ∧ Bit.test (e.read 0x6C) 7 = false) ∧
      (e.KeysOn p.ram v → (after.voices.get v).JustKeyedOn ∧ Bit.test (after.read 0x7C) v = false) ∧
      (¬ e.KeysOn p.ram v →
        (e.voices.get v).envelope.stage.rank ≤ (after.voices.get v).envelope.stage.rank ∧
          (after.voices.get v).startDelay.toNat ≤ (e.voices.get v).startDelay.toNat - 1) ∧
      after.read 0x4C = e.read 0x4C ∧
      (Bit.test (e.read 0x6C) 7 = true → ∀ i, (after.voices.get i).Stopped) ∧
      after.pendingKeyOn = 0 := by
  intro e after
  have hp : Bit.test e.pendingKeyOn v = true ↔ ∃ w ∈ p.writes, RequestsKeyOn v w := by
    rw [pending_receive, pending_foldl_pass h, Bit.test_zero]
    simp
  have hk := e.keysOn_iff p.ram v
  have ha : after = (e.tick p.ram).1 := rfl
  rw [ha, read_keyOn, read_keyOn, read_ended, test_read_flags]
  refine ⟨?_, fun hon ↦ ?_, fun hoff ↦ ?_, keyOn_tick e p.ram, fun hr i ↦ stopped_tick e p.ram i hr,
    pendingKeyOn_tick e p.ram⟩
  · rw [hk, hp, and_comm]
  · obtain ⟨hr, hp⟩ := hk.1 hon
    exact tick_of_pending e p.ram v hr hp
  · exact tick_of_not_pending e p.ram v ((not_keysOn_iff e p.ram v).1 hoff)

/-- Two voices are asked for, and the second write, which clears the register, takes nothing back. -/
def twoRequests : Period where
  writes := [(0x6C, 0x20), (0x5C, 0x02), (0x4C, 0x06), (0x4C, 0x00)]
  ram := .zero

theorem keyOn_exactly_once_twoRequests :
    ({} : Dsp).pendingKeyOn = 0 ∧
      (({} : Dsp).receive twoRequests.writes).KeysOn .zero 1 ∧
      ¬ (({} : Dsp).receive twoRequests.writes).KeysOn .zero 0 ∧
      ¬ ((({} : Dsp).pass twoRequests).receive []).KeysOn .zero 1 := by
  have hf : Bit.test ((({} : Dsp).receive twoRequests.writes).read 0x6C) 7 = false := by decide
  obtain ⟨h₁, -⟩ := keyOn_exactly_once {} rfl [] twoRequests 1
  obtain ⟨h₀, -⟩ := keyOn_exactly_once {} rfl [] twoRequests 0
  obtain ⟨h₂, -⟩ := keyOn_exactly_once {} rfl [twoRequests] { ram := .zero } 1
  refine ⟨rfl, h₁.2 ⟨by decide, hf⟩, fun h ↦ ?_, fun h ↦ ?_⟩
  · exact absurd (h₀.1 h).1 (by decide)
  · exact absurd (h₂.1 h).1 (by decide)

end Dsp

end SoundUnit
