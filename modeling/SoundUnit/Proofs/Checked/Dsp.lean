import SoundUnit.Proofs.Checked.Voice
import SoundUnit.Proofs.Dsp.Mixing
import SoundUnit.Proofs.Validity.Dsp

namespace SoundUnit

open Checked

namespace Echo

def readSample? (ram : Ram) (addr : UInt16) : Option Int := do
  let high ← ram.read? (addr + 1)
  let low ← ram.read? addr
  return (word high low).toInt16.toInt

def readFrame? (ram : Ram) (addr : UInt16) : Option (Stereo Int) := do
  let left ← readSample? ram addr
  let right ← readSample? ram (addr + 2)
  return ⟨left, right⟩

def receive? (e : Echo) (ram : Ram) : Option Echo := do
  let next ← below sizeBound (e.newest + 1)
  let _ ← e.history[next % 8]?
  let frame ← readFrame? ram e.address
  return { e with
    newest := next % 8
    history := e.history.setIfInBounds (next % 8) (frame.map fun x ↦ Int16.ofInt (x / 2)) }

def tap? (e : Echo) (side : Frame → Int16) (i : Nat) : Option Int := do
  let place ← below sizeBound (e.newest + 1 + i)
  let frame ← e.history[place % 8]?
  let coefficient ← e.taps[i]?
  let product ← long ((side frame).toInt * coefficient.toInt)
  return product / 64

def addTap? (e : Echo) (side : Frame → Int16) (sum : Int) (i : Fin 8) : Option Int := do
  let x ← e.tap? side i.val
  long (sum + x)

def filterSide? (e : Echo) (side : Frame → Int16) : Option Int := do
  let early ← [0, 1, 2, 3, 4, 5, 6].foldlM (e.addTap? side) 0
  let last ← e.tap? side 7
  let sum ← long (Sample.wrap early + Sample.wrap last)
  return Sample.even (Sample.clamp sum)

def filter? (e : Echo) : Option (Stereo Int) := do
  let left ← e.filterSide? Stereo.left
  let right ← e.filterSide? Stereo.right
  return ⟨left, right⟩

def amplify? (sample : Int) (volume : Int8) : Option Int := do
  let product ← long (sample * volume.toInt)
  return Sample.wrap (product / 128)

def feedSide? (e : Echo) (input filtered : Int) : Option Int := do
  let feedback ← amplify? filtered e.feedback
  let sum ← long (input + feedback)
  return Sample.even (Sample.clamp sum)

def writeSample? (ram : Ram) (addr : UInt16) (sample : Int) : Option Ram := do
  let w := (Int16.ofInt sample).toUInt16
  let ram ← ram.write? addr (Word.low w)
  ram.write? (addr + 1) (Word.high w)

def delayLength? (e : Echo) : Option UInt16 := do
  let length ← below wordBound ((e.delay &&& 0xF).toNat * 2048)
  return UInt16.ofNat length

def latchedLength? (e : Echo) : Option UInt16 := if e.offset = 0 then e.delayLength? else some e.length

def advance? (e : Echo) : Option Echo := do
  let length ← e.latchedLength?
  let offset ← below wordBound (e.offset.toNat + 4)
  return { e with length, offset := if length.toNat ≤ offset then 0 else UInt16.ofNat offset }

def put? (e : Echo) (ram : Ram) (input filtered : Stereo Int) : Bool → Option Ram
  | false => some ram
  | true => do
    let left ← e.feedSide? input.left filtered.left
    let ram ← writeSample? ram e.address left
    let right ← e.feedSide? input.right filtered.right
    writeSample? ram (e.address + 2) right

def send? (e : Echo) (ram : Ram) (input filtered : Stereo Int) (enabled : Bool) : Option (Echo × Ram) := do
  let ram ← e.put? ram input filtered enabled
  let e ← e.advance?
  return (e, ram)

def clearRam? (ram : Ram) (start : UInt16) : Nat → Option Ram
  | 0 => some ram
  | n + 1 => do
    let ram ← ram.write? start 0
    clearRam? ram (start + 1) n

def clear? (e : Echo) (ram : Ram) : Option (Echo × Ram) := do
  let length ← e.delayLength?
  let ram ← clearRam? ram e.start (max length.toNat 4)
  return ({ e with history := Vector.replicate 8 Frame.silence, offset := 0 }, ram)

variable {e : Echo}

theorem readSample?_eq (ram : Ram) (addr : UInt16) : readSample? ram addr = some (readSample ram addr) := by
  unfold readSample?
  simp only [Ram.read?_eq, Option.bind_eq_bind, Option.bind_some]
  rfl

theorem readFrame?_eq (ram : Ram) (addr : UInt16) : readFrame? ram addr = some (readFrame ram addr) := by
  unfold readFrame?
  simp only [readSample?_eq, Option.bind_eq_bind, Option.bind_some]
  rfl

theorem receive?_eq (h : e.newest < 8) (ram : Ram) : e.receive? ram = some (e.receive ram) := by
  have hn : (e.newest + 1) % 8 < 8 := Nat.mod_lt _ (by decide)
  unfold receive?
  rw [below_of (by unfold sizeBound; omega)]
  simp only [readFrame?_eq, Vector.getElem?_eq_getElem hn, Option.bind_eq_bind, Option.bind_some]
  rfl

theorem tap_bounds (e : Echo) (side : Frame → Int16) (i : Fin 8) :
    -65536 ≤ e.tap side i ∧ e.tap side i ≤ 65536 := by
  have hp := amplified_bounds (int16_bounds (side (e.tapFrame i))) (e.taps.get i)
  unfold tap
  omega

theorem tap?_eq (h : e.newest < 8) (side : Frame → Int16) (i : Fin 8) : e.tap? side i = some (e.tap side i) := by
  have hi := i.isLt
  have hm : (e.newest + 1 + i.val) % 8 < 8 := Nat.mod_lt _ (by decide)
  have hp := amplified_bounds (int16_bounds (side (e.tapFrame i))) (e.taps.get i)
  unfold tap?
  rw [below_of (by unfold sizeBound; omega)]
  simp only [Vector.getElem?_eq_getElem hm, Vector.getElem?_eq_getElem hi, Option.bind_eq_bind, Option.bind_some]
  change long ((side (e.tapFrame i)).toInt * (e.taps.get i).toInt) >>= _ = _
  rw [long_of (by omega)]
  rfl

theorem early?_eq (h : e.newest < 8) (side : Frame → Int16) :
    [0, 1, 2, 3, 4, 5, 6].foldlM (e.addTap? side) 0 =
      some (e.tap side 0 + e.tap side 1 + e.tap side 2 + e.tap side 3 + e.tap side 4 + e.tap side 5 +
        e.tap side 6) := by
  have h₀ := e.tap_bounds side 0
  have h₁ := e.tap_bounds side 1
  have h₂ := e.tap_bounds side 2
  have h₃ := e.tap_bounds side 3
  have h₄ := e.tap_bounds side 4
  have h₅ := e.tap_bounds side 5
  have h₆ := e.tap_bounds side 6
  unfold addTap?
  simp (disch := omega) only [List.foldlM_cons, List.foldlM_nil, tap?_eq h, long_of, Int.zero_add, Option.bind_eq_bind,
    Option.bind_some]
  rfl

theorem filterSide?_eq (h : e.newest < 8) (side : Frame → Int16) :
    e.filterSide? side = some (e.filterSide side) := by
  have hl : e.tap? side 7 = some (e.tap side 7) := tap?_eq h side 7
  have hw := Sample.wrap_bounds
    (e.tap side 0 + e.tap side 1 + e.tap side 2 + e.tap side 3 + e.tap side 4 + e.tap side 5 + e.tap side 6)
  have hw' := Sample.wrap_bounds (e.tap side 7)
  unfold filterSide?
  simp (disch := omega) only [early?_eq h, hl, long_of, Option.bind_eq_bind, Option.bind_some]
  rfl

theorem filter?_eq (h : e.newest < 8) : e.filter? = some e.filter := by
  unfold filter?
  simp only [filterSide?_eq h, Option.bind_eq_bind, Option.bind_some]
  rfl

theorem amplify?_eq {sample : Int} (h : -32768 ≤ sample ∧ sample ≤ 32767) (volume : Int8) :
    amplify? sample volume = some (amplify sample volume) := by
  have hp := amplified_bounds h volume
  unfold amplify?
  rw [long_of (by omega)]
  rfl

theorem feedSide?_eq {input filtered : Int} (hi : -32768 ≤ input ∧ input ≤ 32767)
    (hf : -32768 ≤ filtered ∧ filtered ≤ 32767) :
    e.feedSide? input filtered = some (Sample.even (Sample.clamp (input + amplify filtered e.feedback))) := by
  have hw := Sample.wrap_bounds (filtered * e.feedback.toInt / 128)
  unfold feedSide?
  rw [amplify?_eq hf]
  simp only [Option.bind_eq_bind, Option.bind_some]
  unfold amplify
  rw [long_of (by omega)]
  rfl

theorem writeSample?_eq (ram : Ram) (addr : UInt16) (sample : Int) :
    writeSample? ram addr sample = some (writeSample ram addr sample) := by
  unfold writeSample?
  simp only [Ram.write?_eq, Option.bind_eq_bind, Option.bind_some]
  rfl

theorem put?_eq (ram : Ram) {input filtered : Stereo Int} (hi : input.Small) (hf : filtered.Small) (enabled : Bool) :
    e.put? ram input filtered enabled =
      some (if enabled then writeFrame ram e.address (e.feed input filtered) else ram) := by
  unfold put?
  cases enabled
  · rfl
  · simp only [feedSide?_eq hi.1 hf.1, feedSide?_eq hi.2 hf.2, writeSample?_eq, Option.bind_eq_bind, Option.bind_some]
    rfl

theorem delayLength?_eq (e : Echo) : e.delayLength? = some e.delayLength := by
  have hd : (e.delay &&& 0xF).toNat ≤ 15 := by
    rw [UInt8.toNat_and]
    exact Nat.and_le_right
  have hl : UInt16.ofNat ((e.delay &&& 0xF).toNat * 2048) = (e.delay &&& 0xF).toUInt16 * 0x800 := by
    rw [← UInt16.toNat_inj, UInt16.toNat_mul, UInt8.toNat_toUInt16, UInt16.toNat_ofNat']
    rfl
  unfold delayLength? wordBound
  rw [below_of (by omega)]
  simp only [hl, Option.bind_eq_bind, Option.bind_some]
  rfl

theorem latchedLength?_eq (e : Echo) : e.latchedLength? = some e.advance.length := by
  change (if e.offset = 0 then e.delayLength? else some e.length) =
    some (if e.offset = 0 then e.delayLength else e.length)
  rw [delayLength?_eq]
  split <;> rfl

theorem advance?_eq (h : e.Valid) : e.advance? = some e.advance := by
  have hlt := (valid_iff.1 h).2.1
  have ha := toNat_offset_add h
  have ho : UInt16.ofNat (e.offset.toNat + 4) = e.offset + frameBytes := by
    rw [← ha, UInt16.ofNat_toNat]
  have hle : e.advance.length.toNat ≤ e.offset.toNat + 4 ↔ e.advance.length ≤ e.offset + frameBytes := by
    rw [UInt16.le_iff_toNat_le, ha]
  unfold advance? wordBound
  rw [latchedLength?_eq]
  simp only [Option.bind_eq_bind, Option.bind_some]
  rw [below_of (by omega)]
  simp only [ho, hle, Option.bind_some]
  rfl

theorem send?_eq (h : e.Valid) (ram : Ram) {input filtered : Stereo Int} (hi : input.Small) (hf : filtered.Small)
    (enabled : Bool) : e.send? ram input filtered enabled = some (e.send ram input filtered enabled) := by
  unfold send?
  simp only [put?_eq ram hi hf, advance?_eq h, Option.bind_eq_bind, Option.bind_some]
  rfl

theorem clearRam?_eq (n : Nat) (ram : Ram) (start : UInt16) : clearRam? ram start n = some (ram.clear start n) := by
  induction n generalizing ram start with
  | zero => rfl
  | succ n ih =>
    unfold clearRam?
    rw [Ram.write?_eq, Option.bind_eq_bind, Option.bind_some, ih]
    rfl

theorem clear?_eq (e : Echo) (ram : Ram) : e.clear? ram = some (e.clear ram) := by
  unfold clear?
  simp only [delayLength?_eq, clearRam?_eq, Option.bind_eq_bind, Option.bind_some]
  rfl

end Echo

namespace Dsp

def nextCounter? (counter : UInt16) : Option UInt16 := do
  let next ← if counter = 0 then difference 30720 1 else difference counter.toNat 1
  return UInt16.ofNat next

def stepCounter? (d : Dsp) : Option Dsp := do
  let counter ← nextCounter? d.counter
  return { d with counter }

def stepNoise? (d : Dsp) : Option Dsp := do
  let fires ← d.noiseRate.fires? d.counter
  return { d with noise := if fires then shiftNoise d.noise else d.noise }

def clockVoice? (ram : Ram) (d : Dsp) (v : Fin 8) : Option Dsp := do
  let voice ← d.voices[v.val]?
  let (voice, ended) ← voice.clock? ram (d.voiceTick v)
  return { d with
    voices := d.voices.setIfInBounds v voice
    ended := if ended then d.ended ||| Bit.mask v else d.ended }

def clockVoices? (d : Dsp) (ram : Ram) : Option Dsp := allVoices.foldlM (clockVoice? ram) d

def prepare? (d : Dsp) (ram : Ram) : Option Dsp := do
  let d ← d.stepCounter?
  let d ← d.stepNoise?
  d.applyKeys.clockVoices? ram

def accumulate? (d : Dsp) (chosen : Fin 8 → Bool) (sum : Stereo Int) (v : Fin 8) : Option (Stereo Int) :=
  if chosen v then do
    let voice ← d.voices[v.val]?
    let left ← long (voice.output.toInt * voice.volume.left.toInt)
    let right ← long (voice.output.toInt * voice.volume.right.toInt)
    let left ← long (sum.left + left / 128)
    let right ← long (sum.right + right / 128)
    return ⟨Sample.clamp left, Sample.clamp right⟩
  else some sum

def mix? (d : Dsp) (chosen : Fin 8 → Bool) : Option (Stereo Int) :=
  allVoices.foldlM (d.accumulate? chosen) ⟨0, 0⟩

def side? (main : Int) (mainVolume : Int8) (echo : Int) (echoVolume : Int8) : Option Int16 := do
  let x ← Echo.amplify? main mainVolume
  let y ← Echo.amplify? echo echoVolume
  let sum ← long (x + y)
  return Int16.ofInt (Sample.clamp sum)

def output? (d : Dsp) (main filtered : Stereo Int) : Option Frame := do
  let left ← side? main.left d.mainVolume.left filtered.left d.echo.volume.left
  let right ← side? main.right d.mainVolume.right filtered.right d.echo.volume.right
  return if d.silenced then Frame.silence else ⟨left, right⟩

def finish? (d : Dsp) (ram : Ram) : Option (Frame × Dsp × Ram) := do
  let echo ← d.echo.receive? ram
  let d := d.withEcho echo
  let filtered ← d.echo.filter?
  let main ← d.mix? fun v ↦ !Bit.test d.muted v
  let input ← d.mix? fun v ↦ !Bit.test d.muted v && Bit.test d.echo.enable v
  let frame ← d.output? main filtered
  let (echo, ram) ← d.echo.send? ram input filtered d.echoWrites
  return (frame, d.withEcho echo, ram)

def tick? (d : Dsp) (ram : Ram) : Option (Dsp × Ram) := do
  let d ← d.prepare? ram
  let (frame, d, ram) ← d.finish? ram
  return (d.push frame, ram)

/-- Makes `n` samples and takes the clocks for each one off first. -/
def ticks? : Nat → Nat → Dsp → Ram → Option (Dsp × Ram)
  | 0, elapsed, d, ram => some (d.atTime elapsed, ram)
  | n + 1, elapsed, d, ram => do
    let rest ← difference elapsed sampleClocks
    let (d, ram) ← d.tick? ram
    ticks? n rest d ram

def clock? (d : Dsp) (clocks : Nat) (ram : Ram) : Option (Dsp × Ram) := do
  let total ← below sizeBound (d.elapsed + clocks)
  let n ← quotient total sampleClocks
  ticks? n total d ram

def clearEcho? (d : Dsp) (ram : Ram) : Option (Dsp × Ram) := do
  let (echo, ram) ← d.echo.clear? ram
  return ({ d with echo }, ram)

variable {d : Dsp}

theorem nextCounter?_eq (counter : UInt16) : nextCounter? counter = some (Rate.nextCounter counter) := by
  unfold nextCounter? Rate.nextCounter
  by_cases h : counter = 0
  · rw [if_pos h, if_pos h]
    rfl
  · have hn : counter.toNat ≠ 0 := fun e ↦ h (UInt16.toNat_inj.1 e)
    have hlt := counter.toNat_lt
    have hc : UInt16.ofNat (counter.toNat - 1) = counter - 1 := by
      rw [← UInt16.toNat_inj, UInt16.toNat_sub, UInt16.toNat_ofNat']
      change (counter.toNat - 1) % 65536 = (65536 - 1 + counter.toNat) % 65536
      omega
    rw [if_neg h, if_neg h, difference_of (by omega)]
    simp only [hc, Option.bind_eq_bind, Option.bind_some]
    rfl

theorem voiceTick_valid (d : Dsp) (v : Fin 8) : (d.voiceTick v).Valid := by
  intro noise hn
  unfold voiceTick at hn
  dsimp only at hn
  split at hn
  · cases hn
    exact int16_bounds _
  · cases hn

theorem clockVoice?_eq (h : d.Valid) (ram : Ram) (v : Fin 8) : clockVoice? ram d v = some (clockVoice ram d v) := by
  have hc := Voice.clock?_eq (h.2.2.2 v) ram (d.voiceTick_valid v)
  have hv : d.voices[v.val]? = some (d.voices.get v) := Vector.getElem?_eq_getElem v.isLt
  unfold clockVoice?
  simp only [hv, hc, Option.bind_eq_bind, Option.bind_some]
  rfl

theorem clockVoices?_eq (h : d.Valid) (ram : Ram) : d.clockVoices? ram = some (d.clockVoices ram) :=
  (foldlM_of (P := Valid) (fun _ v h ↦ ⟨clockVoice?_eq h ram v, h.clockVoice ram v⟩) allVoices h).1

theorem prepare?_eq (h : d.Valid) (ram : Ram) : d.prepare? ram = some (d.prepare ram) := by
  have hc := clockVoices?_eq h.stepCounter.stepNoise.applyKeys ram
  have hs : d.stepCounter? = some d.stepCounter := by
    unfold stepCounter?
    rw [nextCounter?_eq]
    rfl
  have hn : d.stepCounter.stepNoise? = some d.stepCounter.stepNoise := by
    unfold stepNoise?
    rw [Rate.fires?_eq]
    rfl
  unfold prepare?
  simp only [hs, hn, hc, Option.bind_eq_bind, Option.bind_some]
  rfl

theorem accumulate?_eq (d : Dsp) (chosen : Fin 8 → Bool) {sum : Stereo Int} (h : sum.Small) (v : Fin 8) :
    d.accumulate? chosen sum v = some (d.accumulate chosen sum v) := by
  obtain ⟨hs, hs'⟩ := h
  have hv : d.voices[v.val]? = some (d.voices.get v) := Vector.getElem?_eq_getElem v.isLt
  have hl := amplified_bounds (int16_bounds (d.voices.get v).output) (d.voices.get v).volume.left
  have hr := amplified_bounds (int16_bounds (d.voices.get v).output) (d.voices.get v).volume.right
  unfold accumulate? accumulate
  split
  · simp only [hv, Option.bind_eq_bind, Option.bind_some]
    simp (disch := omega) only [long_of, Option.bind_some]
    rfl
  · rfl

theorem mix?_eq (d : Dsp) (chosen : Fin 8 → Bool) : d.mix? chosen = some (d.mix chosen) ∧ (d.mix chosen).Small := by
  rw [mix_eq]
  exact foldlM_of (P := Stereo.Small) (fun _ v h ↦ ⟨d.accumulate?_eq chosen h v, d.small_accumulate chosen h v⟩)
    allVoices Stereo.small_zero

theorem side?_eq {main echo : Int} (hm : -32768 ≤ main ∧ main ≤ 32767) (he : -32768 ≤ echo ∧ echo ≤ 32767)
    (mainVolume echoVolume : Int8) :
    side? main mainVolume echo echoVolume =
      some (Int16.ofInt (Sample.clamp (Echo.amplify main mainVolume + Echo.amplify echo echoVolume))) := by
  have hx := Sample.wrap_bounds (main * mainVolume.toInt / 128)
  have hy := Sample.wrap_bounds (echo * echoVolume.toInt / 128)
  unfold side?
  simp only [Echo.amplify?_eq hm, Echo.amplify?_eq he, Option.bind_eq_bind, Option.bind_some]
  unfold Echo.amplify
  rw [long_of (by omega)]
  rfl

theorem output?_eq (d : Dsp) {filtered : Stereo Int} (h : filtered.Small) :
    d.output? d.mainMix filtered = some (d.output filtered) := by
  obtain ⟨hm, hm'⟩ : d.mainMix.Small := (d.mix?_eq _).2
  unfold output? output
  simp only [side?_eq hm h.1, side?_eq hm' h.2, Option.bind_eq_bind, Option.bind_some]
  split <;> rfl

theorem finish?_eq (h : d.Valid) (ram : Ram) : d.finish? ram = some (d.finish ram) := by
  have hr := Echo.receive?_eq h.2.2.1.2.2.2.2 ram
  have he : (d.withEcho (d.echo.receive ram)).echo.Valid := h.2.2.1.receive ram
  rw [finish_eq]
  unfold finish?
  simp only [hr, Option.bind_eq_bind, Option.bind_some]
  generalize d.withEcho (d.echo.receive ram) = d at he
  obtain ⟨hi, hi'⟩ := d.mix?_eq fun v ↦ !Bit.test d.muted v && Bit.test d.echo.enable v
  have hm := (d.mix?_eq fun v ↦ !Bit.test d.muted v).1
  have hf := Echo.filter_small d.echo
  have ho := d.output?_eq hf
  have hs := Echo.send?_eq he ram hi' hf d.echoWrites
  unfold mainMix at ho
  simp only [Echo.filter?_eq he.2.2.2.2, hm, hi, ho, hs, Option.bind_some]
  rfl

theorem tick?_eq (h : d.Valid) (ram : Ram) : d.tick? ram = some (d.tick ram) := by
  unfold tick?
  simp only [prepare?_eq h ram, finish?_eq (h.prepare ram) ram, Option.bind_eq_bind, Option.bind_some]
  rfl

theorem ticks?_eq (h : d.Valid) (n rest : Nat) (ram : Ram) :
    ticks? n (rest + n * sampleClocks) d ram = some (ticks n (d.atTime rest) ram) := by
  rw [ticks_atTime]
  induction n generalizing d ram with
  | zero => simp only [ticks?, ticks, Nat.zero_mul, Nat.add_zero]
  | succ n ih =>
    have hd : difference (rest + (n + 1) * sampleClocks) sampleClocks = some (rest + n * sampleClocks) :=
      difference_of_add (by rw [Nat.succ_mul]; omega)
    unfold ticks?
    rw [hd, tick?_eq h]
    exact ih (h.tick ram) _

theorem clock?_eq (h : d.Valid) {clocks : Nat} (hc : clocks ≤ 12) (ram : Ram) :
    d.clock? clocks ram = some (d.clock clocks ram) := by
  have he : d.elapsed < 32 := h.1
  have hm : (d.elapsed + clocks) % sampleClocks + (d.elapsed + clocks) / sampleClocks * sampleClocks =
      d.elapsed + clocks := by
    rw [Nat.mul_comm]
    exact Nat.mod_add_div _ _
  have ht := ticks?_eq h ((d.elapsed + clocks) / sampleClocks) ((d.elapsed + clocks) % sampleClocks) ram
  rw [hm] at ht
  unfold clock?
  rw [below_of (by unfold sizeBound; omega)]
  simp only [quotient_of (show sampleClocks ≠ 0 by decide), ht, Option.bind_eq_bind, Option.bind_some]
  rfl

theorem clearEcho?_eq (d : Dsp) (ram : Ram) : d.clearEcho? ram = some (d.clearEcho ram) := by
  unfold clearEcho?
  rw [Echo.clear?_eq]
  rfl

end Dsp

end SoundUnit
