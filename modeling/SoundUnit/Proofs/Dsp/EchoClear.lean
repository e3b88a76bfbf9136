import SoundUnit.Proofs.Dsp.DelayLine

namespace SoundUnit

namespace Echo

/-- A sample in which the program may switch the line off. -/
structure Turn extends Moment where
  enabled : Bool

structure Turn.Idle (e : Echo) (t : Turn) : Prop where
  input : t.input = ⟨0, 0⟩
  outside : ∀ w ∈ t.writes, ¬ e.Covers w.1

def Turn.heard (t : Turn) (u : Echo) (ram : Ram) : Echo := (u.adjust t.toMoment).receive (t.store ram)

def Turn.pass (s : Echo × Ram) (t : Turn) : Echo × Ram :=
  (s.1.adjust t.toMoment).tick (t.store s.2) t.input t.enabled

variable {e u : Echo} {n : Nat} {ram : Ram} {t : Turn}

theorem weigh_zero (taps : Vector Int8 8) : weigh taps (fun _ ↦ 0) = 0 := by
  simp [weigh, Sample.wrap, Sample.clamp, Sample.even]

theorem amplify_zero (volume : Int8) : amplify 0 volume = 0 := by
  simp [amplify, Sample.wrap]

theorem feed_zero (e : Echo) : e.feed ⟨0, 0⟩ ⟨0, 0⟩ = ⟨0, 0⟩ := by
  simp [feed, Stereo.zipWith, amplify_zero, Sample.clamp, Sample.even]

theorem readSample_zero {addr : UInt16} (h₀ : ram.read addr = 0) (h₁ : ram.read (addr + 1) = 0) :
    readSample ram addr = 0 := by
  rw [readSample, h₀, h₁]
  rfl

/-- After `n` samples the echo is at the place of frame `n`, and there is silence in its line and in its filter. -/
structure Silent (e : Echo) (n : Nat) (u : Echo) (ram : Ram) : Prop where
  turning : e.Turning n u
  history : u.history = Vector.replicate 8 Frame.silence
  line : ∀ a, e.Covers a → ram.read a = 0

theorem filter_of_history (h : u.history = Vector.replicate 8 Frame.silence) : u.filter = ⟨0, 0⟩ := by
  have ht : ∀ i, (u.tapFrame i).map Int16.toInt = ⟨0, 0⟩ := by
    intro i
    simp only [tapFrame, h, Vector.get_eq_getElem, Vector.getElem_replicate]
    rfl
  rw [filter_eq u ht, weigh_zero]

namespace Silent

theorem readFrame (h : e.Silent n u ram) : readFrame ram u.address = ⟨0, 0⟩ := by
  have hz : ∀ i < 4, ram.read (e.slot n + UInt16.ofNat i) = 0 := by
    intro i hi
    exact h.line _ (e.covers_slot n hi)
  have h₀ : ram.read (e.slot n) = 0 := by simpa using hz 0 (by decide)
  have h₃ : ram.read (e.slot n + 2 + 1) = 0 := by simpa [UInt16.add_assoc] using hz 3 (by decide)
  have hl : readSample ram (e.slot n) = 0 := readSample_zero h₀ (hz 1 (by decide))
  have hr : readSample ram (e.slot n + 2) = 0 := readSample_zero (hz 2 (by decide)) h₃
  rw [h.turning.address, Echo.readFrame, hl, hr]

theorem adjust (h : e.Silent n u ram) (m : Moment) : e.Silent n (u.adjust m) ram :=
  ⟨h.turning.adjust m, h.history, h.line⟩

theorem store (h : e.Silent n u ram) {m : Moment} (hw : ∀ w ∈ m.writes, ¬ e.Covers w.1) :
    e.Silent n u (m.store ram) := by
  refine ⟨h.turning, h.history, ?_⟩
  intro a ha
  rw [read_store hw ram ha]
  exact h.line a ha

theorem receive (h : e.Silent n u ram) : e.Silent n (u.receive ram) ram := by
  refine ⟨h.turning.receive ram, ?_, h.line⟩
  have hs : Stereo.map (fun x ↦ Int16.ofInt (x / 2)) ⟨0, 0⟩ = Frame.silence := by decide
  simp only [Echo.receive, h.readFrame, h.history, hs]
  ext i hi : 1
  simp

theorem heard (h : e.Silent n u ram) (ht : t.Idle e) : e.Silent n (t.heard u ram) (t.store ram) :=
  ((h.adjust t.toMoment).store ht.outside).receive

theorem pass (h : e.Silent n u ram) (ht : t.Idle e) :
    e.Silent (n + 1) (t.pass (u, ram)).1 (t.pass (u, ram)).2 := by
  have hh := h.heard ht
  have hf : (t.heard u ram).feed t.input (t.heard u ram).filter = ⟨0, 0⟩ := by
    rw [ht.input, filter_of_history hh.history, feed_zero]
  have he : t.pass (u, ram) =
      ((t.heard u ram).advance,
        if t.enabled then
          writeFrame (t.store ram) (t.heard u ram).address ((t.heard u ram).feed t.input (t.heard u ram).filter)
        else t.store ram) := rfl
  rw [he, hf]
  refine ⟨hh.turning.advance, hh.history, ?_⟩
  intro a ha
  dsimp only
  split
  · exact read_writeFrame_zero (hh.line a ha) _
  · exact hh.line a ha

theorem foldl (h : e.Silent n u ram) {turns : List Turn} (ht : ∀ t ∈ turns, t.Idle e) :
    e.Silent (n + turns.length) (turns.foldl Turn.pass (u, ram)).1 (turns.foldl Turn.pass (u, ram)).2 := by
  induction turns generalizing n u ram with
  | nil => exact h
  | cons t turns ih =>
    obtain ⟨hi, hrest⟩ := List.forall_mem_cons.1 ht
    have hn : n + (t :: turns).length = n + 1 + turns.length := by
      rw [List.length_cons]
      omega
    rw [hn]
    exact ih (h.pass hi) hrest

end Silent

theorem covers_iff (e : Echo) (a : UInt16) :
    e.Covers a ↔ (a - e.start).toNat < max 4 (2048 * (e.delay.toNat % 16)) := by
  simp only [Covers, period]
  omega

theorem read_clear (e : Echo) (ram : Ram) (a : UInt16) :
    (e.clear ram).2.read a = if e.Covers a then 0 else ram.read a := by
  have hl : e.clearLength = max 4 (2048 * (e.delay.toNat % 16)) := by
    have hd := e.toNat_delayLength
    have hb : frameBytes.toNat = 4 := rfl
    rw [clearLength]
    omega
  simp only [covers_iff, ← hl]
  exact ram.read_clear e.start a _

theorem silent_clear (e : Echo) (ram : Ram) : e.Silent 0 (e.clear ram).1 (e.clear ram).2 := by
  refine ⟨.initial rfl rfl rfl, rfl, ?_⟩
  intro a ha
  rw [read_clear, if_pos ha]

/-- Clearing sets the line that the delay register asks for to zero and touches no other byte. After it, whatever the
length of the line was, the filter and the echo stay silent in every sample as long as nothing goes into the line, and
so does the line itself. -/
theorem clear_silences (e : Echo) (ram : Ram) :
    (∀ a, (e.clear ram).2.read a =
        if (a - e.start).toNat < max 4 (2048 * (e.delay.toNat % 16)) then 0 else ram.read a) ∧
      ∀ turns : List Turn, (∀ t ∈ turns, t.Idle e) →
        let s := turns.foldl Turn.pass (e.clear ram)
        (∀ a, (a - e.start).toNat < max 4 (2048 * (e.delay.toNat % 16)) → s.2.read a = 0) ∧
          ∀ t : Turn, t.Idle e →
            let heard := t.heard s.1 s.2
            heard.filter = ⟨0, 0⟩ ∧ amplify heard.filter.left heard.volume.left = 0 ∧
              amplify heard.filter.right heard.volume.right = 0 := by
  refine ⟨fun a ↦ ?_, fun turns ht ↦ ?_⟩
  · simp only [read_clear, covers_iff]
  · intro s
    have hs : e.Silent (0 + turns.length) s.1 s.2 := (e.silent_clear ram).foldl ht
    refine ⟨fun a ha ↦ hs.line a ((e.covers_iff a).2 ha), fun t hi ↦ ?_⟩
    intro heard
    have hf : heard.filter = ⟨0, 0⟩ := filter_of_history (hs.heard hi).history
    rw [hf]
    exact ⟨rfl, amplify_zero _, amplify_zero _⟩

/-- A long line that is played when a short one is asked for, with sound in its memory and in its filter. -/
def staleLine : Echo :=
  { wrappingLine with
    length := 0x7800
    offset := 0x1234
    history := Vector.replicate 8 ⟨0x100, -0x100⟩
    newest := 5 }

def silentTurn (enabled : Bool) : Turn := { steadyMoment with input := ⟨0, 0⟩, enabled }

theorem clear_silences_staleLine :
    let ram := (Ram.zero.write 0x10 0x5A).write 0x2000 0x5A
    let turns := [silentTurn true, silentTurn false, silentTurn true]
    let s := turns.foldl Turn.pass (staleLine.clear ram)
    (∀ t ∈ turns, t.Idle staleLine) ∧ (staleLine.clear ram).2.read 0x10 = 0 ∧
      (staleLine.clear ram).2.read 0x2000 = 0x5A ∧ s.2.read 0x10 = 0 ∧
      ((silentTurn true).heard s.1 s.2).filter = ⟨0, 0⟩ := by
  intro ram turns s
  have hi : ∀ enabled, (silentTurn enabled).Idle staleLine := by
    intro enabled
    refine ⟨rfl, ?_⟩
    intro w hw
    obtain rfl := List.mem_singleton.1 hw
    decide +kernel
  have ht : ∀ t ∈ turns, t.Idle staleLine := by
    simp [turns, hi]
  obtain ⟨hc, hs⟩ := clear_silences staleLine ram
  obtain ⟨hz, hf⟩ := hs turns ht
  refine ⟨ht, ?_, ?_, hz 0x10 (by decide), (hf _ (hi true)).1⟩
  · rw [hc, if_pos (by decide)]
  · rw [hc, if_neg (by decide)]
    exact Ram.read_write_self _ _ _

end Echo

end SoundUnit
