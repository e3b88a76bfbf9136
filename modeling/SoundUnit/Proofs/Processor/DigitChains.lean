import Mathlib.Data.Nat.Digits.Defs
import SoundUnit.Processor.Status

namespace SoundUnit

/-- Steps in a row: from `x` and with the flags that it meets, each step makes the digit `d` and leaves flags. Between
two steps a program can do anything that leaves the carry alone. -/
inductive Chain {α : Type} (step : Status → α → UInt8 → Status → Prop) :
    Status → List α → List UInt8 → Status → Prop
  | nil (s : Status) : Chain step s [] [] s
  | cons {s s₁ s₂ t : Status} {x : α} {xs : List α} {d : UInt8} {ds : List UInt8} (hc : s₁.carry = s.carry)
      (h : step s₁ x d s₂) (hs : Chain step s₂ xs ds t) : Chain step s (x :: xs) (d :: ds) t

/-- There are such chains, and `P` holds of what any of them makes and of the flags after it. -/
def Chain.Makes {α : Type} (step : Status → α → UInt8 → Status → Prop) (s : Status) (xs : List α)
    (P : List UInt8 → Status → Prop) : Prop :=
  (∃ ds t, Chain step s xs ds t) ∧ ∀ ds t, Chain step s xs ds t → P ds t

namespace Chain

variable {α : Type} {step : Status → α → UInt8 → Status → Prop} {s t : Status} {xs : List α} {x : α}
  {ds : List UInt8} {d : UInt8}

theorem length_eq (h : Chain step s xs ds t) : ds.length = xs.length := by
  induction h with
  | nil => rfl
  | cons _ _ _ ih => rw [List.length_cons, List.length_cons, ih]

theorem exists_of_total (h : ∀ s x, ∃ d t, step s x d t) (s : Status) (xs : List α) :
    ∃ ds t, Chain step s xs ds t := by
  induction xs generalizing s with
  | nil => exact ⟨[], s, .nil s⟩
  | cons x xs ih =>
    obtain ⟨d, s₂, hx⟩ := h s x
    obtain ⟨ds, t, hs⟩ := ih s₂
    exact ⟨d :: ds, t, .cons rfl hx hs⟩

theorem concat (h : Chain step s (xs ++ [x]) ds t) :
    ∃ ds' d s₁ s₂, ds = ds' ++ [d] ∧ Chain step s xs ds' s₁ ∧ s₂.carry = s₁.carry ∧ step s₂ x d t := by
  induction xs generalizing s ds with
  | nil =>
    cases h with
    | cons hc h hs =>
      cases hs
      exact ⟨[], _, s, _, rfl, .nil s, hc, h⟩
  | cons x' xs ih =>
    cases h with
    | cons hc h hs =>
      obtain ⟨ds', d, s₁, s₂, rfl, hs, hc', hx⟩ := ih hs
      exact ⟨_ :: ds', d, s₁, s₂, rfl, .cons hc h hs, hc', hx⟩

theorem forall_digits {P : UInt8 → Prop} (hstep : ∀ s, ∀ x ∈ xs, ∀ d t, step s x d t → P d)
    (h : Chain step s xs ds t) : ∀ d ∈ ds, P d := by
  induction h with
  | nil => simp
  | cons hc h hs ih =>
    rw [List.forall_mem_cons]
    refine ⟨hstep _ _ List.mem_cons_self _ _ h, ih fun s x hx ↦ ?_⟩
    exact hstep s x (List.mem_cons_of_mem _ hx)

variable {base : Nat} {value : UInt8 → Nat} {f : α → Nat}

theorem ofDigits_eq
    (hstep : ∀ s, ∀ x ∈ xs, ∀ d t, step s x d t → value d + base * t.carry.toNat = f x + s.carry.toNat)
    (h : Chain step s xs ds t) :
    Nat.ofDigits base (ds.map value) + base ^ xs.length * t.carry.toNat =
      Nat.ofDigits base (xs.map f) + s.carry.toNat := by
  induction h with
  | nil => simp
  | @cons s s₁ s₂ t x xs d ds hc h hs ih =>
    have hx := hstep _ _ List.mem_cons_self _ _ h
    have hi := ih fun s x hx ↦ hstep s x (List.mem_cons_of_mem _ hx)
    simp only [List.map_cons, List.length_cons, Nat.ofDigits_cons, pow_succ']
    calc value d + base * Nat.ofDigits base (ds.map value) + base * base ^ xs.length * t.carry.toNat
        = value d + base * (Nat.ofDigits base (ds.map value) + base ^ xs.length * t.carry.toNat) := by ring
      _ = value d + base * s₂.carry.toNat + base * Nat.ofDigits base (xs.map f) := by rw [hi]; ring
      _ = f x + base * Nat.ofDigits base (xs.map f) + s.carry.toNat := by rw [hx, hc]; ring

end Chain

section Digits

variable {α : Type} (base : Nat) (f g : α → Nat) (xs : List α)

theorem ofDigits_map_add :
    Nat.ofDigits base (xs.map fun x ↦ f x + g x) = Nat.ofDigits base (xs.map f) + Nat.ofDigits base (xs.map g) := by
  rw [Nat.ofDigits_add_ofDigits_eq_ofDigits_zipWith_of_length_eq (by simp), List.zipWith_map, List.zipWith_self]

theorem ofDigits_complement (hg : ∀ x ∈ xs, g x < base) :
    Nat.ofDigits base (xs.map fun x ↦ base - 1 - g x) + Nat.ofDigits base (xs.map g) + 1 = base ^ xs.length := by
  induction xs with
  | nil => simp
  | cons x xs ih =>
    have hx := hg x List.mem_cons_self
    have hi := ih fun x hx ↦ hg x (List.mem_cons_of_mem _ hx)
    simp only [List.map_cons, List.length_cons, Nat.ofDigits_cons, pow_succ', ← hi, mul_add]
    omega

variable {base g xs} in
theorem ofDigits_map_lt (hb : 1 < base) (hg : ∀ x ∈ xs, g x < base) :
    Nat.ofDigits base (xs.map g) < base ^ xs.length := by
  have h := Nat.ofDigits_lt_base_pow_length hb (l := xs.map g) (by simpa using hg)
  rwa [List.length_map] at h

end Digits

section Carry

variable {p r : Nat} {c : Bool}

theorem eq_mod_of_carry {total : Nat} (h : r + p * c.toNat = total) (hr : r < p) :
    r = total % p ∧ c = decide (p ≤ total) := by
  rw [← h, Nat.add_mul_mod_self_left, Nat.mod_eq_of_lt hr]
  cases c <;> simp [hr]

theorem eq_emod_of_borrow {a b : Nat} {c₀ : Bool} (h : r + p * c.toNat + b + 1 = a + p + c₀.toNat) (hr : r < p) :
    (r : Int) = ((a : Int) - b - (1 - c₀.toNat)) % (p : Int) ∧ c = decide (b + (1 - c₀.toNat) ≤ a) := by
  have hc₀ := c₀.toNat_le
  have hd : (a : Int) - b - (1 - c₀.toNat) = r + p * (c.toNat - 1) := by
    rw [mul_sub, mul_one]
    zify at h
    omega
  rw [hd, Int.add_mul_emod_self_left, Int.emod_eq_of_lt (by omega) (by omega)]
  cases c <;> simp at h ⊢ <;> omega

end Carry

end SoundUnit
