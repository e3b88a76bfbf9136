import Mathlib
import SoundUnit.Snapshot.Format

namespace SoundUnit

theorem bind_eq_ok {ε α β : Type} {x : Except ε α} {k : α → Except ε β} {b : β} :
    (x >>= k) = .ok b ↔ ∃ a, x = .ok a ∧ k a = .ok b := by
  cases x with
  | error e => exact ⟨fun h ↦ (nomatch h), fun ⟨_, h, _⟩ ↦ (nomatch h)⟩
  | ok a => exact ⟨fun h ↦ ⟨a, rfl, h⟩, fun ⟨_, h, hk⟩ ↦ by cases h; exact hk⟩

theorem pure_eq_ok {ε α : Type} {a b : α} : (pure a : Except ε α) = .ok b ↔ a = b :=
  ⟨fun h ↦ Except.ok.inj h, congrArg _⟩

namespace Format

variable {α β : Type} {f : Format α} {g : Format β} {P : α → Prop} {Q : β → Prop}

/-- The reader accepts the written forms of the values in `P`, whatever bytes follow, and accepts nothing else. -/
def Exact (f : Format α) (P : α → Prop) : Prop :=
  ∀ bytes a rest, f.read bytes = .ok (a, rest) ↔ P a ∧ bytes = f.write a ++ rest

theorem readNat_eq_ok (k : Nat) (bytes : List UInt8) (n : Nat) (rest : List UInt8) :
    readNat k bytes = .ok (n, rest) ↔ n < 256 ^ k ∧ bytes = writeNat k n ++ rest := by
  induction k generalizing bytes n rest with
  | zero =>
    simp only [readNat, writeNat, Except.ok.injEq, Prod.mk.injEq, Nat.pow_zero, Nat.lt_one_iff, List.nil_append]
    exact and_congr_left' eq_comm
  | succ k ih =>
    cases bytes with
    | nil => exact ⟨fun h ↦ (nomatch h), fun h ↦ (nomatch h.2)⟩
    | cons b bytes =>
      have hb := b.toNat_lt
      simp only [readNat, writeNat, bind_eq_ok, pure_eq_ok, Prod.exists, Prod.mk.injEq, ih, List.cons_append,
        List.cons.injEq]
      constructor
      · intro h
        obtain ⟨m, _, ⟨hm, rfl⟩, rfl, rfl⟩ := h
        have hd : (b.toNat + 256 * m) / 256 = m := by omega
        refine ⟨by rw [Nat.pow_succ]; omega, ?_, by rw [hd]⟩
        rw [← UInt8.toNat_inj, UInt8.toNat_ofNat']
        omega
      · intro h
        obtain ⟨hn, rfl, rfl⟩ := h
        refine ⟨n / 256, rest, ⟨?_, rfl⟩, ?_, rfl⟩
        · rw [Nat.pow_succ] at hn
          omega
        · rw [UInt8.toNat_ofNat']
          omega

namespace Exact

theorem write_inj (hf : Exact f P) {a b : α} {s t : List UInt8} (ha : P a) (hb : P b)
    (h : f.write a ++ s = f.write b ++ t) : a = b := by
  have hra := (hf _ a s).2 ⟨ha, rfl⟩
  have hrb := (hf _ b t).2 ⟨hb, rfl⟩
  rw [h] at hra
  exact (Prod.mk.inj (Except.ok.inj (hra.symm.trans hrb))).1

theorem congr {P' : α → Prop} (hf : Exact f P) (h : ∀ a, P a ↔ P' a) : Exact f P' := by
  intro bytes a rest
  rw [hf, h]

theorem byte : Exact Format.byte fun _ ↦ True := by
  intro bytes b rest
  cases bytes with
  | nil => exact ⟨fun h ↦ (nomatch h), fun h ↦ (nomatch h.2)⟩
  | cons c bytes =>
    simp only [Format.byte, Except.ok.injEq, Prod.mk.injEq, true_and, List.cons_append, List.nil_append,
      List.cons.injEq]

theorem nat (k : Nat) : Exact (Format.nat k) fun n ↦ n < 256 ^ k := readNat_eq_ok k

theorem map {decode : α → β} {encode : β → α} (hf : Exact f P) (hd : ∀ a, P a → encode (decode a) = a)
    (he : ∀ b, P (encode b) → decode (encode b) = b) : Exact (f.map decode encode) fun b ↦ P (encode b) := by
  intro bytes b rest
  simp only [Format.map, bind_eq_ok, pure_eq_ok, Prod.exists, Prod.mk.injEq, hf _ _ _]
  constructor
  · intro h
    obtain ⟨a, _, ⟨ha, rfl⟩, rfl, rfl⟩ := h
    rw [hd a ha]
    exact ⟨ha, rfl⟩
  · intro h
    obtain ⟨hb, rfl⟩ := h
    exact ⟨encode b, rest, ⟨hb, rfl⟩, he b hb, rfl⟩

theorem filterMap {decode : α → Except SnapshotFault β} {encode : β → α} (hf : Exact f P)
    (h : ∀ a b, P a → (decode a = .ok b ↔ a = encode b)) :
    Exact (f.filterMap decode encode) fun b ↦ P (encode b) := by
  intro bytes b rest
  simp only [Format.filterMap, bind_eq_ok, pure_eq_ok, Prod.exists, Prod.mk.injEq, hf _ _ _]
  constructor
  · intro h
    obtain ⟨a, _, ⟨ha, rfl⟩, c, hc, rfl, rfl⟩ := h
    rw [← (h a c ha).1 hc]
    exact ⟨ha, rfl⟩
  · intro h
    obtain ⟨hb, rfl⟩ := h
    exact ⟨encode b, rest, ⟨hb, rfl⟩, b, (h _ b hb).2 rfl, rfl, rfl⟩

theorem seq (hf : Exact f P) (hg : Exact g Q) : Exact (f.seq g) fun p ↦ P p.1 ∧ Q p.2 := by
  intro bytes p rest
  obtain ⟨a, b⟩ := p
  simp only [Format.seq, bind_eq_ok, pure_eq_ok, Prod.exists, Prod.mk.injEq, hf _ _ _, hg _ _ _]
  constructor
  · intro h
    obtain ⟨_, _, ⟨ha, rfl⟩, _, _, ⟨hb, rfl⟩, ⟨rfl, rfl⟩, rfl⟩ := h
    exact ⟨⟨ha, hb⟩, (List.append_assoc ..).symm⟩
  · intro h
    obtain ⟨⟨ha, hb⟩, rfl⟩ := h
    exact ⟨a, _, ⟨ha, List.append_assoc ..⟩, b, rest, ⟨hb, rfl⟩, ⟨rfl, rfl⟩, rfl⟩

theorem readMany (hf : Exact f P) (n : Nat) (items : Array α) (bytes : List UInt8) (result : Array α)
    (rest : List UInt8) :
    readMany f n items bytes = .ok (result, rest) ↔
      ∃ l : List α, l.length = n ∧ (∀ a ∈ l, P a) ∧ result = items ++ l.toArray ∧
        bytes = l.flatMap f.write ++ rest := by
  induction n generalizing items bytes with
  | zero =>
    simp only [Format.readMany, Except.ok.injEq, Prod.mk.injEq, List.length_eq_zero_iff]
    constructor
    · intro h
      obtain ⟨rfl, rfl⟩ := h
      exact ⟨[], rfl, by simp, by simp, rfl⟩
    · intro h
      obtain ⟨_, rfl, -, rfl, rfl⟩ := h
      exact ⟨by simp, rfl⟩
  | succ n ih =>
    simp only [Format.readMany, bind_eq_ok, Prod.exists, hf _ _ _, ih]
    constructor
    · intro h
      obtain ⟨a, _, ⟨ha, rfl⟩, l, rfl, hl, rfl, rfl⟩ := h
      refine ⟨a :: l, rfl, List.forall_mem_cons.2 ⟨ha, hl⟩, by simp, ?_⟩
      rw [List.flatMap_cons, List.append_assoc]
    · intro h
      obtain ⟨l, hn, hl, rfl, rfl⟩ := h
      cases l with
      | nil => cases hn
      | cons a l =>
        obtain ⟨ha, hl⟩ := List.forall_mem_cons.1 hl
        refine ⟨a, l.flatMap f.write ++ rest, ⟨ha, ?_⟩, l, Nat.succ.inj hn, hl, by simp, rfl⟩
        rw [List.flatMap_cons, List.append_assoc]

theorem array (hf : Exact f P) : Exact f.array fun items ↦ items.size < 256 ^ 8 ∧ ∀ a ∈ items, P a := by
  intro bytes items rest
  simp only [Format.array, bind_eq_ok, Prod.exists, readNat_eq_ok, hf.readMany]
  constructor
  · intro h
    obtain ⟨n, _, ⟨hlt, rfl⟩, l, rfl, hl, rfl, rfl⟩ := h
    exact ⟨⟨by simpa using hlt, by simpa using hl⟩, by simp⟩
  · intro h
    obtain ⟨⟨hlt, hl⟩, rfl⟩ := h
    exact ⟨items.size, items.toList.flatMap f.write ++ rest, ⟨hlt, List.append_assoc ..⟩, items.toList,
      Array.length_toList, by simpa using hl, by simp, rfl⟩

theorem vector (hf : Exact f P) (n : Nat) : Exact (f.vector n) fun items ↦ ∀ a ∈ items, P a := by
  intro bytes v rest
  obtain ⟨items, rfl⟩ := v
  have key : (f.vector items.size).read bytes = .ok (⟨items, rfl⟩, rest) ↔
      Format.readMany f items.size #[] bytes = .ok (items, rest) := by
    simp only [Format.vector]
    split <;> simp_all
  rw [key, hf.readMany]
  constructor
  · intro h
    obtain ⟨l, -, hl, rfl, rfl⟩ := h
    exact ⟨by simpa using hl, by simp [Format.vector]⟩
  · intro h
    obtain ⟨hl, rfl⟩ := h
    exact ⟨items.toList, Array.length_toList, by simpa using hl, by simp, by simp [Format.vector]⟩

theorem bytes : Exact Format.bytes fun data ↦ data.size < 256 ^ 8 := by
  intro bytes data rest
  simp only [Format.bytes, bind_eq_ok, Prod.exists, readNat_eq_ok]
  constructor
  · intro h
    obtain ⟨n, s, ⟨hlt, rfl⟩, hd⟩ := h
    split at hd
    next hs =>
      obtain ⟨rfl, rfl⟩ := Prod.mk.inj (pure_eq_ok.1 hd)
      refine ⟨by rwa [List.size_toByteArray, hs], ?_⟩
      rw [List.size_toByteArray, hs, List.data_toByteArray, List.append_assoc, List.take_append_drop]
    next => cases hd
  · intro h
    obtain ⟨hlt, rfl⟩ := h
    have hlen : data.data.toList.length = data.size := rfl
    have he : data.data.toList.toByteArray = data := ByteArray.ext (by rw [List.data_toByteArray])
    refine ⟨data.size, data.data.toList ++ rest, ⟨hlt, List.append_assoc ..⟩, ?_⟩
    rw [List.take_left' hlen, List.drop_left' hlen, if_pos hlen, he]
    rfl

theorem bool : Exact Format.bool fun _ ↦ True := by
  refine byte.filterMap fun a b _ ↦ ?_
  by_cases h₀ : a = 0
  · subst h₀
    cases b <;> simp [Bool.toUInt8]
  · by_cases h₁ : a = 1
    · subst h₁
      cases b <;> simp [Bool.toUInt8]
    · rw [if_neg h₀, if_neg h₁]
      refine ⟨fun h ↦ (nomatch h), fun h ↦ ?_⟩
      cases b
      · exact absurd h h₀
      · exact absurd h h₁

theorem option (hf : Exact f P) : Exact f.option fun o ↦ ∀ a ∈ o, P a := by
  intro bytes o rest
  cases bytes with
  | nil => exact ⟨fun h ↦ (nomatch h), fun h ↦ by cases o <;> exact (nomatch h.2)⟩
  | cons tag bytes =>
    simp only [Format.option]
    by_cases h₀ : tag = 0
    · subst h₀
      cases o <;> simp
    · by_cases h₁ : tag = 1
      · subst h₁
        rw [if_neg h₀, if_pos rfl]
        simp only [bind_eq_ok, pure_eq_ok, hf _ _ _, Prod.exists, Prod.mk.injEq]
        cases o with
        | none => simp
        | some a => simp
      · rw [if_neg h₀, if_neg h₁]
        refine ⟨fun h ↦ (nomatch h), fun ⟨_, h⟩ ↦ ?_⟩
        cases o with
        | none => exact absurd (List.cons.inj h).1 h₀
        | some a => exact absurd (List.cons.inj h).1 h₁

end Exact

end Format

end SoundUnit
