namespace SoundUnit

/-- A computation that reads and writes memory one byte at a time: which cells it touches, in which order, and how its
result depends on the bytes that it reads. What a cell is does not matter here; `Access.run` takes that as an
argument. -/
inductive Access (α : Type) where
  | done (value : α)
  | read (addr : UInt16) (next : UInt8 → Access α)
  | write (addr : UInt16) (data : UInt8) (next : Access α)

namespace Access

def bind {α β : Type} : Access α → (α → Access β) → Access β
  | done value, f => f value
  | read addr next, f => read addr fun data ↦ (next data).bind f
  | write addr data next, f => write addr data (next.bind f)

instance : Monad Access where
  pure := done
  bind := bind

/-- Performs the reads and writes on a memory of type `σ`; a read may change the memory too. -/
def run {α σ : Type} (onRead : UInt16 → σ → UInt8 × σ) (onWrite : UInt16 → UInt8 → σ → σ) :
    Access α → σ → α × σ
  | done value, s => (value, s)
  | read addr next, s =>
    let (data, s) := onRead addr s
    run onRead onWrite (next data) s
  | write addr data next, s => run onRead onWrite next (onWrite addr data s)

theorem bind_done {α : Type} (p : Access α) : p.bind done = p := by
  induction p with
  | done value => rfl
  | read addr next ih => simp only [bind, ih]
  | write addr data next ih => simp only [bind, ih]

theorem bind_assoc {α β γ : Type} (p : Access α) (f : α → Access β) (g : β → Access γ) :
    (p.bind f).bind g = p.bind fun a ↦ (f a).bind g := by
  induction p with
  | done value => rfl
  | read addr next ih => simp only [bind, ih]
  | write addr data next ih => simp only [bind, ih]

instance : LawfulMonad Access :=
  LawfulMonad.mk' _ bind_done (fun _ _ ↦ rfl) bind_assoc

variable {α β σ : Type} (onRead : UInt16 → σ → UInt8 × σ) (onWrite : UInt16 → UInt8 → σ → σ)

theorem run_bind (p : Access α) (f : α → Access β) (s : σ) :
    (p.bind f).run onRead onWrite s =
      (f (p.run onRead onWrite s).1).run onRead onWrite (p.run onRead onWrite s).2 := by
  induction p generalizing s with
  | done value => rfl
  | read addr next ih => exact ih _ _
  | write addr data next ih => exact ih _

theorem run_invariant {P : σ → Prop} (hr : ∀ addr s, P s → P (onRead addr s).2)
    (hw : ∀ addr data s, P s → P (onWrite addr data s)) (p : Access α) (s : σ) (h : P s) :
    P (p.run onRead onWrite s).2 := by
  induction p generalizing s with
  | done value => exact h
  | read addr next ih => exact ih _ _ (hr addr s h)
  | write addr data next ih => exact ih _ (hw addr data s h)

end Access

end SoundUnit
