import SoundUnit.Dsp.Generation

namespace SoundUnit

namespace Dsp

def finish (d : Dsp) (ram : Ram) : Frame × Dsp × Ram :=
  let d := { d with echo := d.echo.receive ram }
  let filtered := d.echo.filter
  let (echo, ram) := d.echo.send ram d.echoMix filtered d.echoWrites
  (d.output filtered, { d with echo }, ram)

def withEcho (d : Dsp) (echo : Echo) : Dsp := { d with echo }

theorem finish_eq (d : Dsp) (ram : Ram) :
    d.finish ram =
      let received := d.withEcho (d.echo.receive ram)
      let filtered := received.echo.filter
      let sent := received.echo.send ram received.echoMix filtered received.echoWrites
      (received.output filtered, received.withEcho sent.1, sent.2) := rfl

theorem generate_eq_finish (d : Dsp) (ram : Ram) : d.generate ram = (d.prepare ram).finish ram := rfl

def push (d : Dsp) (frame : Frame) : Dsp := { d with frames := d.frames.push frame }

@[simp] theorem elapsed_push (d : Dsp) (frame : Frame) : (d.push frame).elapsed = d.elapsed := rfl

@[simp] theorem frames_push (d : Dsp) (frame : Frame) : (d.push frame).frames = d.frames.push frame := rfl

theorem tick_eq (d : Dsp) (ram : Ram) :
    d.tick ram = ((d.generate ram).2.1.push (d.generate ram).1, (d.generate ram).2.2) := rfl

/-- The same generator at another time and with other frames in its queue. -/
def reclock (d : Dsp) (elapsed : Nat) (frames : Array Frame) : Dsp := { d with elapsed, frames }

theorem reclock_self (d : Dsp) : d.reclock d.elapsed d.frames = d := rfl

theorem applyKeys_reclock (d : Dsp) (e : Nat) (q : Array Frame) :
    (d.reclock e q).applyKeys = d.applyKeys.reclock e q := by
  change (if d.softReset then _ else _) = (if d.softReset then _ else _ : Dsp).reclock e q
  split <;> rfl

theorem clockVoice_reclock (ram : Ram) (d : Dsp) (v : Fin 8) (e : Nat) (q : Array Frame) :
    clockVoice ram (d.reclock e q) v = (clockVoice ram d v).reclock e q := rfl

theorem clockVoices_reclock (d : Dsp) (ram : Ram) (e : Nat) (q : Array Frame) :
    (d.reclock e q).clockVoices ram = (d.clockVoices ram).reclock e q := by
  unfold clockVoices
  generalize allVoices = l
  induction l generalizing d with
  | nil => rfl
  | cons v l ih => rw [List.foldl_cons, List.foldl_cons, clockVoice_reclock, ih]

theorem prepare_reclock (d : Dsp) (ram : Ram) (e : Nat) (q : Array Frame) :
    (d.reclock e q).prepare ram = (d.prepare ram).reclock e q := by
  unfold prepare
  rw [← clockVoices_reclock, ← applyKeys_reclock]
  rfl

theorem finish_reclock (d : Dsp) (ram : Ram) (e : Nat) (q : Array Frame) :
    (d.reclock e q).finish ram = ((d.finish ram).1, (d.finish ram).2.1.reclock e q, (d.finish ram).2.2) := rfl

theorem generate_reclock (d : Dsp) (ram : Ram) (e : Nat) (q : Array Frame) :
    (d.reclock e q).generate ram =
      ((d.generate ram).1, (d.generate ram).2.1.reclock e q, (d.generate ram).2.2) := by
  rw [generate_eq_finish, prepare_reclock, finish_reclock]
  rfl

theorem generate_keeps_clock (d : Dsp) (ram : Ram) :
    (d.generate ram).2.1.elapsed = d.elapsed ∧ (d.generate ram).2.1.frames = d.frames := by
  have h := generate_reclock d ram d.elapsed d.frames
  rw [reclock_self] at h
  generalize d.generate ram = g at h ⊢
  have hd : g.2.1 = g.2.1.reclock d.elapsed d.frames := congrArg (·.2.1) h
  rw [hd]
  exact ⟨rfl, rfl⟩

def atTime (d : Dsp) (elapsed : Nat) : Dsp := { d with elapsed }

theorem tick_atTime (d : Dsp) (ram : Ram) (elapsed : Nat) :
    (d.atTime elapsed).tick ram = ((d.tick ram).1.atTime elapsed, (d.tick ram).2) := by
  change (d.reclock elapsed d.frames).tick ram = _
  obtain ⟨_, hf⟩ := generate_keeps_clock d ram
  rw [tick_eq, tick_eq, generate_reclock]
  generalize d.generate ram = g at hf
  simp only [atTime, reclock, push, hf]

theorem ticks_atTime (n : Nat) (d : Dsp) (ram : Ram) (elapsed : Nat) :
    ticks n (d.atTime elapsed) ram = ((ticks n d ram).1.atTime elapsed, (ticks n d ram).2) := by
  induction n generalizing d ram with
  | zero => rfl
  | succ n ih =>
    rw [ticks, tick_atTime]
    exact ih _ _

theorem elapsed_tick (d : Dsp) (ram : Ram) : (d.tick ram).1.elapsed = d.elapsed := by
  simp only [tick_eq, elapsed_push, (generate_keeps_clock d ram).1]

theorem frames_tick (d : Dsp) (ram : Ram) : (d.tick ram).1.frames = d.frames.push (d.generate ram).1 := by
  simp only [tick_eq, frames_push, (generate_keeps_clock d ram).2]

theorem elapsed_ticks (n : Nat) (d : Dsp) (ram : Ram) : (ticks n d ram).1.elapsed = d.elapsed := by
  induction n generalizing d ram with
  | zero => rfl
  | succ n ih =>
    rw [ticks, ih]
    exact elapsed_tick d ram

theorem size_frames_ticks (n : Nat) (d : Dsp) (ram : Ram) :
    (ticks n d ram).1.frames.size = d.frames.size + n := by
  induction n generalizing d ram with
  | zero => rfl
  | succ n ih =>
    rw [ticks, ih, frames_tick, Array.size_push]
    omega

theorem elapsed_clock (d : Dsp) (clocks : Nat) (ram : Ram) :
    (d.clock clocks ram).1.elapsed = (d.elapsed + clocks) % sampleClocks :=
  elapsed_ticks ..

theorem size_frames_clock (d : Dsp) (clocks : Nat) (ram : Ram) :
    (d.clock clocks ram).1.frames.size = d.frames.size + (d.elapsed + clocks) / sampleClocks :=
  size_frames_ticks ..

/-- The clocks since the oldest frame in the queue was begun. -/
def backlog (d : Dsp) : Nat := d.frames.size * sampleClocks + d.elapsed

theorem backlog_clock (d : Dsp) (clocks : Nat) (ram : Ram) :
    (d.clock clocks ram).1.backlog = d.backlog + clocks := by
  have hd := Nat.div_add_mod (d.elapsed + clocks) sampleClocks
  simp only [backlog, size_frames_clock, elapsed_clock, sampleClocks] at hd ⊢
  omega

def enqueue (d : Dsp) (q : Array Frame) : Dsp := d.reclock d.elapsed (q ++ d.frames)

theorem tick_enqueue (d : Dsp) (ram : Ram) (q : Array Frame) :
    (d.enqueue q).tick ram = ((d.tick ram).1.enqueue q, (d.tick ram).2) := by
  obtain ⟨he, hf⟩ := generate_keeps_clock d ram
  rw [tick_eq, tick_eq, enqueue, generate_reclock]
  generalize d.generate ram = g at he hf
  simp only [enqueue, reclock, push, he, hf, Array.append_push]

theorem ticks_enqueue (n : Nat) (d : Dsp) (ram : Ram) (q : Array Frame) :
    ticks n (d.enqueue q) ram = ((ticks n d ram).1.enqueue q, (ticks n d ram).2) := by
  induction n generalizing d ram with
  | zero => rfl
  | succ n ih =>
    rw [ticks, tick_enqueue]
    exact ih _ _

theorem clock_enqueue (d : Dsp) (clocks : Nat) (ram : Ram) (q : Array Frame) :
    (d.enqueue q).clock clocks ram = ((d.clock clocks ram).1.enqueue q, (d.clock clocks ram).2) :=
  ticks_enqueue _ { d with elapsed := (d.elapsed + clocks) % sampleClocks } ram q

theorem enqueue_take (d : Dsp) (n : Nat) : (d.take n).2.enqueue (d.take n).1 = d := by
  have h : d.frames.extract 0 n ++ d.frames.extract n d.frames.size = d.frames := by
    rw [Array.extract_append_extract, Nat.zero_min]
    exact Array.extract_eq_self_of_le (Nat.le_max_right ..)
  simp only [enqueue, reclock, take, h]

end Dsp

end SoundUnit
