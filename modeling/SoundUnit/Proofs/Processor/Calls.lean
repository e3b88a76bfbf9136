import Mathlib.Logic.Relation
import SoundUnit.Proofs.Processor.Stack

namespace SoundUnit

def Instruction.return? : Instruction → Option Instruction
  | call | callPage | callTable _ => some ret
  | trap => some retTrap
  | _ => none

namespace Core

structure SameStack (n : Nat) (c c' : Core) : Prop where
  sp_eq : c'.registers.sp = c.registers.sp
  stack_eq : c'.stack n = c.stack n

/-- Since the stack pointer was `base`, these bytes have come on the stack, the last one first. -/
structure Holds (c : Core) (base : UInt8) (bytes : List UInt8) : Prop where
  length_le : bytes.length ≤ 0x100
  base_eq : c.registers.sp + UInt8.ofNat bytes.length = base
  stack_eq : c.stack bytes.length = bytes

/-- The instruction at the program counter of `c'` goes on after the call at the program counter of `c`, with the stack
as it was before the call and, after a trap, with the flags from before. -/
def Resumes (c c' : Core) : Prop :=
  c'.execute.2.registers =
    { c'.registers with
      pc := c.instruction.returnAddress c.registers.pc
      sp := c.registers.sp
      status := if c.instruction = .trap then c.registers.status else c'.registers.status }

/-- A step of a run, with the bytes that have been pushed and not yet popped. Between two instructions that push or pop
there can be any instructions and any time, if they leave these bytes and the stack pointer alone. -/
inductive StackStep : Core × List UInt8 → Core × List UInt8 → Prop
  | keep {c c' : Core} {bytes : List UInt8} (h : c.SameStack bytes.length c') : StackStep (c, bytes) (c', bytes)
  | push {c : Core} {bytes : List UInt8} (h : c.pushes ≠ []) (hl : c.pushes.length + bytes.length ≤ 0x100) :
    StackStep (c, bytes) (c.execute.2, c.pushes.reverse ++ bytes)
  | pop {c : Core} {top bytes : List UInt8} (h : c.instruction.pops = top.length) (ht : top ≠ []) :
    StackStep (c, top ++ bytes) (c.execute.2, bytes)

def StackRun : Core × List UInt8 → Core × List UInt8 → Prop := Relation.ReflTransGen StackStep

namespace Holds

variable {c c' : Core} {base : UInt8} {top bytes : List UInt8}

theorem nil (c : Core) : c.Holds c.registers.sp [] where
  length_le := Nat.zero_le _
  base_eq := UInt8.add_zero _
  stack_eq := rfl

theorem keep (h : c.Holds base bytes) (hs : c.SameStack bytes.length c') : c'.Holds base bytes where
  length_le := h.length_le
  base_eq := by rw [hs.sp_eq, h.base_eq]
  stack_eq := hs.stack_eq.trans h.stack_eq

theorem push (h : c.Holds base bytes) (hp : c.pushes ≠ []) (hl : c.pushes.length + bytes.length ≤ 0x100) :
    c.execute.2.Holds base (c.pushes.reverse ++ bytes) := by
  obtain ⟨hs, hr⟩ := c.execute_pushes hp
  have hlength : (c.pushes.reverse ++ bytes).length = c.pushes.length + bytes.length := by simp
  refine ⟨hlength ▸ hl, ?_, ?_⟩
  · rw [hlength, hs, UInt8.ofNat_add, ← UInt8.add_assoc, UInt8.sub_add_cancel, h.base_eq]
  · have hstack := c.bus.ram.stack_push c.registers.sp c.pushes hl
    rw [hlength, stack, hs, hr, hstack]
    exact congrArg (c.pushes.reverse ++ ·) h.stack_eq

theorem stack_top (h : c.Holds base (top ++ bytes)) : c.stack top.length = top ∧
    c.bus.ram.stack (c.registers.sp + UInt8.ofNat top.length) bytes.length = bytes := by
  have hs := h.stack_eq
  rw [stack, List.length_append, Ram.stack_add] at hs
  exact List.append_inj hs (Ram.length_stack ..)

theorem pop (h : c.Holds base (top ++ bytes)) (hp : c.instruction.pops = top.length) (ht : top ≠ []) :
    c.execute.2.Holds base bytes ∧
      c.execute.2.registers = c.instruction.restore c.registers top ∧
      c.fetched.dispatchEvents (c.bus.peek c.registers.pc) = popEvents c.registers.sp top := by
  obtain ⟨htop, hrest⟩ := h.stack_top
  have hn : c.instruction.pops ≠ 0 := by
    rw [hp]
    exact fun e ↦ ht (List.eq_nil_of_length_eq_zero e)
  have he := c.execute_pops hn
  rw [hp, htop] at he
  have hs := Instruction.restore_sp hp ht c.registers
  have hl := h.length_le
  have hb := h.base_eq
  rw [List.length_append] at hl hb
  refine ⟨⟨by omega, ?_, ?_⟩, ?_, he.2⟩
  · rw [he.1, hs, UInt8.add_assoc, ← UInt8.ofNat_add, hb]
  · rw [he.1, stack, hs]
    exact hrest
  · rw [he.1]

theorem step {p q : Core × List UInt8} (h : p.1.Holds base p.2) (hs : StackStep p q) : q.1.Holds base q.2 := by
  cases hs with
  | keep hs => exact h.keep hs
  | push hp hl => exact h.push hp hl
  | pop hp ht => exact (h.pop hp ht).1

theorem run {p q : Core × List UInt8} (h : p.1.Holds base p.2) (hs : StackRun p q) : q.1.Holds base q.2 := by
  induction hs with
  | refl => exact h
  | tail _ hs ih => exact ih.step hs

theorem execute_ret {low high : UInt8} (h : c.Holds base [low, high]) (hi : c.instruction = .ret) :
    c.execute.2.registers = { c.registers with pc := word high low, sp := base } := by
  have h' : c.Holds base ([low, high] ++ []) := h
  rw [(h'.pop (by rw [hi]; rfl) (by simp)).2.1, hi, ← h.base_eq]
  rfl

theorem execute_retTrap {status low high : UInt8} (h : c.Holds base [status, low, high])
    (hi : c.instruction = .retTrap) :
    c.execute.2.registers = { c.registers with pc := word high low, sp := base, status := .ofByte status } := by
  have h' : c.Holds base ([status, low, high] ++ []) := h
  rw [(h'.pop (by rw [hi]; rfl) (by simp)).2.1, hi, ← h.base_eq]
  rfl

theorem resumes {i : Instruction} (hc : c.instruction.return? = some i) (hi : c'.instruction = i)
    (h : c'.Holds c.registers.sp c.pushes.reverse) : c.Resumes c' := by
  subst hi
  unfold Resumes
  unfold pushes at h
  cases hk : c.instruction with
  | call | callPage | callTable n =>
    rw [hk] at hc h
    rw [h.execute_ret (Option.some.inj hc).symm, Word.word_high_low, if_neg (by simp)]
  | trap =>
    rw [hk] at hc h
    rw [h.execute_retTrap (Option.some.inj hc).symm, Word.word_high_low, Status.ofByte_toByte, if_pos rfl]
  | _ =>
    rw [hk] at hc
    cases hc

end Holds

theorem holds_pushes {c : Core} {i : Instruction} (hc : c.instruction.return? = some i) :
    c.execute.2.Holds c.registers.sp c.pushes.reverse := by
  have hl : c.pushes ≠ [] ∧ c.pushes.length ≤ 0x100 := by
    unfold pushes
    cases hk : c.instruction with
    | call | callPage | callTable n | trap => exact ⟨List.cons_ne_nil _ _, by simp [Instruction.pushes]⟩
    | _ =>
      rw [hk] at hc
      cases hc
  have h := (Holds.nil c).push hl.1 hl.2
  rwa [List.append_nil] at h

/-- A call returns if the stack pointer and the bytes that it has pushed are as it left them, whatever has happened
since, and also if other calls and pushes have come and gone on top of it. What is popped is always what was pushed
last. -/
theorem calls_return (c : Core) :
    (∀ i c', c.instruction.return? = some i → c'.instruction = i →
      c.execute.2.SameStack c.pushes.length c' ∨ StackRun (c.execute.2, c.pushes.reverse) (c', c.pushes.reverse) →
        c.Resumes c') ∧
    ∀ c' bytes, StackRun (c, []) (c', bytes) →
      c'.Holds c.registers.sp bytes ∧
        ∀ top rest, bytes = top ++ rest → c'.instruction.pops = top.length → top ≠ [] →
          c'.execute.2.Holds c.registers.sp rest ∧
            c'.execute.2.registers = c'.instruction.restore c'.registers top ∧
            c'.fetched.dispatchEvents (c'.bus.peek c'.registers.pc) = popEvents c'.registers.sp top := by
  refine ⟨fun i c' hc hi h ↦ ?_, fun c' bytes h ↦ ?_⟩
  · have hp := holds_pushes hc
    refine Holds.resumes hc hi ?_
    cases h with
    | inl h =>
      rw [← List.length_reverse] at h
      exact hp.keep h
    | inr h => exact hp.run h
  · have hb := (Holds.nil c).run h
    refine ⟨hb, ?_⟩
    rintro top rest rfl hp ht
    exact hb.pop hp ht

/-- At 0 a call of the address 4, where A is pushed and popped before the return; at 3 a trap, and at 7 its return. -/
def nested (pc : UInt16) : Core where
  registers := { a := 5, pc, status := { negative := true, interrupt := true } }
  bus :=
    { ram := (((((((Ram.zero.write 0 0x3F).write 1 4).write 3 0x0F).write 4 0x2D).write 5 0xAE).write 6 0x6F).write 7
        0x7F)
      bootRom := .standard }

theorem calls_return_nested :
    let c := nested 0
    let c₁ := c.execute.2
    let c₂ := c₁.execute.2
    let trap := nested 3
    let handled := { trap.execute.2 with registers := { trap.execute.2.registers with pc := 7 } }
    c.Resumes c₂.execute.2 ∧ c₂.Holds 0 [5, 3, 0] ∧ c₂.execute.2.Holds 0 [3, 0] ∧ trap.Resumes handled := by
  intro c c₁ c₂ trap handled
  have hc : c.instruction.return? = some .ret ∧ c.pushes = [0, 3] := by decide +kernel
  have h₁ : c₁.pushes = [5] := by decide +kernel
  have h₂ : c₂.instruction.pops = 1 ∧ c₂.execute.2.instruction = .ret := by decide +kernel
  have ht : trap.instruction.return? = some .retTrap ∧ handled.instruction = .retTrap := by decide +kernel
  have call : StackStep (c, []) (c₁, [3, 0]) := by
    have h : StackStep (c, []) (c₁, c.pushes.reverse ++ []) := .push (by simp [hc.2]) (by simp [hc.2])
    rwa [hc.2] at h
  have push : StackStep (c₁, [3, 0]) (c₂, [5, 3, 0]) := by
    have h : StackStep (c₁, [3, 0]) (c₂, c₁.pushes.reverse ++ [3, 0]) := .push (by simp [h₁]) (by simp [h₁])
    rwa [h₁] at h
  have pop : StackStep (c₂, [5] ++ [3, 0]) (c₂.execute.2, [3, 0]) := .pop h₂.1 (by simp)
  obtain ⟨hr, hs⟩ := c.calls_return
  obtain ⟨holds, hpop⟩ := hs c₂ [5, 3, 0] (.tail (.single call) push)
  refine ⟨hr _ _ hc.1 h₂.2 (.inr ?_), holds, (hpop [5] [3, 0] rfl h₂.1 (by simp)).1, ?_⟩
  · rw [hc.2]
    exact .tail (.single push) pop
  · exact trap.calls_return.1 _ _ ht.1 ht.2 (.inl ⟨rfl, rfl⟩)

end Core

end SoundUnit
