import SoundUnit.Machine.Core

namespace SoundUnit

namespace Access

variable {α β σ : Type} {P : α → Prop} {Q : β → Prop}

/-- The result satisfies `P`, whatever bytes are read. -/
def Yields (P : α → Prop) : Access α → Prop
  | done value => P value
  | read _ next => ∀ data, (next data).Yields P
  | write _ _ next => next.Yields P

theorem Yields.bind {p : Access α} {f : α → Access β} (hp : p.Yields P) (hf : ∀ a, P a → (f a).Yields Q) :
    (p.bind f).Yields Q := by
  induction p with
  | done value => exact hf value hp
  | read addr next ih => exact fun data ↦ ih data (hp data)
  | write addr data next ih => exact ih hp

theorem Yields.trivial (p : Access α) : p.Yields fun _ ↦ True := by
  induction p with
  | done value => exact .intro
  | read addr next ih => exact ih
  | write addr data next ih => exact ih

theorem Yields.run {p : Access α} (h : p.Yields P) (onRead : UInt16 → σ → UInt8 × σ)
    (onWrite : UInt16 → UInt8 → σ → σ) (s : σ) : P (p.run onRead onWrite s).1 := by
  induction p generalizing s with
  | done value => exact h
  | read addr next ih => exact ih _ (h _) _
  | write addr data next ih => exact ih h _

end Access

namespace Exec

def AtMost (n : Nat) (e : Exec Nat) : Prop := ∀ r, (e r).Yields fun x ↦ x.1 ≤ n

variable {n : Nat}

theorem AtMost.pure {k : Nat} (h : k ≤ n) : AtMost n (Pure.pure k) := fun _ ↦ h

theorem AtMost.bind {α : Type} (e : Exec α) {f : α → Exec Nat} (h : ∀ a, AtMost n (f a)) : AtMost n (e >>= f) :=
  fun r ↦ (Access.Yields.trivial (e r)).bind fun x _ ↦ h x.1 x.2

theorem AtMost.add {m base : Nat} {e : Exec Nat} (he : AtMost n e) (h : base + n ≤ m) :
    AtMost m (e >>= fun k ↦ Pure.pure (base + k)) := by
  intro r
  refine (he r).bind fun x hx ↦ ?_
  exact Nat.le_trans (Nat.add_le_add_left hx base) h

theorem AtMost.branchIf (condition : Bool) : AtMost Instruction.branchClocks (branchIf condition) := by
  refine .bind _ fun offset ↦ ?_
  cases condition
  · exact .pure (Nat.zero_le _)
  · exact .bind _ fun _ ↦ .pure (Nat.le_refl _)

end Exec

namespace Instruction

def extraClocks : Instruction → Nat
  | branch .. | branchBit .. | branchUnequal .. | countDirect | countY => branchClocks
  | _ => 0

theorem execute_atMost (i : Instruction) : Exec.AtMost i.extraClocks i.execute := by
  cases i
  case binary =>
    refine .bind _ fun _ ↦ .bind _ fun _ ↦ .bind _ fun _ ↦ .bind _ fun result ↦ ?_
    cases result
    · exact .pure (Nat.le_refl _)
    · exact .bind _ fun _ ↦ .pure (Nat.le_refl _)
  case wide =>
    refine .bind _ fun _ ↦ .bind _ fun _ ↦ .bind _ fun _ ↦ .bind _ fun result ↦ ?_
    cases result
    · exact .pure (Nat.le_refl _)
    · exact .bind _ fun _ ↦ .pure (Nat.le_refl _)
  case push value => cases value <;> exact .bind _ fun _ ↦ .bind _ fun _ ↦ .pure (Nat.le_refl _)
  case pop value => cases value <;> exact .bind _ fun _ ↦ .bind _ fun _ ↦ .pure (Nat.le_refl _)
  all_goals
    repeat' first
      | exact .branchIf _
      | exact .pure (Nat.le_refl _)
      | refine .bind _ fun _ ↦ ?_

theorem clocks_add_extra_le : ∀ i j : Fin 16,
    (OpcodeMatrix.clockRows.get i).get j + ((OpcodeMatrix.rows.get i).get j).extraClocks ≤ Core.maxStepClocks := by
  decide +kernel

theorem baseClocks_add_extra_le (opcode : UInt8) :
    baseClocks opcode + (ofOpcode opcode).extraClocks ≤ Core.maxStepClocks :=
  clocks_add_extra_le _ _

end Instruction

theorem Exec.instruction_atMost : AtMost Core.maxStepClocks instruction :=
  .bind _ fun opcode ↦ (Instruction.ofOpcode opcode).execute_atMost.add (Instruction.baseClocks_add_extra_le opcode)

namespace Core

theorem execute_le (c : Core) : c.execute.1 ≤ maxStepClocks :=
  (Exec.instruction_atMost c.registers).run _ _ c.bus

theorem step_le (c : Core) : c.step.1 ≤ maxStepClocks := by
  have hh : haltedClocks ≤ maxStepClocks := by decide
  unfold step
  split
  · exact hh
  · exact c.execute_le

end Core

end SoundUnit
