import Mathlib.Logic.Function.Iterate
import SoundUnit.Debugger.Session
import SoundUnit.Proofs.Machine.Stepping
import SoundUnit.Proofs.Processor.Halting

namespace SoundUnit

def Instruction.isCall : Instruction → Bool
  | call | callPage | callTable _ | trap => true
  | _ => false

def Instruction.isReturn : Instruction → Bool
  | ret | retTrap => true
  | _ => false

/-- An instruction and the address of its opcode. -/
structure Occurrence where
  address : UInt16
  instruction : Instruction
deriving DecidableEq

namespace CallStack

/-- The addresses of the calls under way, the outermost one first, after one instruction more. -/
def follow (stack : List UInt16) (o : Occurrence) : List UInt16 :=
  if o.instruction.isCall then stack ++ [o.address]
  else if o.instruction.isReturn then stack.dropLast
  else stack

def ofExecutions (executions : List Occurrence) : List UInt16 := executions.foldl follow []

theorem follow_eq_self_iff {stack : List UInt16} {o : Occurrence} :
    follow stack o = stack ↔ o.instruction.isCall = false ∧ (o.instruction.isReturn = true → stack = []) := by
  unfold follow
  split
  next h => simp [h]
  next h =>
    split
    next hr =>
      have hd : stack.dropLast = stack ↔ stack = [] := by
        cases stack using List.reverseRecOn <;> simp
      simp [h, hr, hd]
    next hr => simp [h, hr]

end CallStack

open CallStack

namespace Core

/-- What a step carries out: the instruction of the opcode that the processor fetches, unless it is halted. -/
def executes (c : Core) : Option Occurrence :=
  if c.registers.halted then none
  else some ⟨c.registers.pc, Instruction.ofOpcode (c.bus.perform (Exec.fetch c.registers)).1.1⟩

def sight (c : Core) : Occurrence := ⟨c.registers.pc, Instruction.ofOpcode (c.bus.peek c.registers.pc)⟩

/-- A step carries out an instruction after it has been fetched, or it only lets time pass. -/
def Carries (c : Core) : Option Occurrence → Prop
  | none => c.step = (haltedClocks, c.elapse haltedClocks)
  | some o =>
    ∃ base, c.step =
      let ((extra, registers), bus) := c.fetched.bus.perform (o.instruction.execute c.fetched.registers)
      (base + extra, Core.elapse { registers, bus } (base + extra))

variable {c : Core}

theorem executes_of_halted (h : c.registers.halted) : c.executes = none := if_pos h

theorem executes_of_running (h : ¬ c.registers.halted) : c.executes = some c.sight := by
  unfold executes sight
  rw [if_neg h, (Exec.Run.fetch c.registers c.bus).perform_eq]

theorem carries_executes (c : Core) : c.Carries c.executes := by
  by_cases h : c.registers.halted
  · rw [executes_of_halted h]
    exact step_of_halted h
  · rw [executes_of_running h]
    refine ⟨Instruction.baseClocks (c.bus.peek c.registers.pc), ?_⟩
    obtain ⟨⟨⟨extra, registers⟩, bus⟩, hp⟩ :
        ∃ p, c.fetched.bus.perform (c.sight.instruction.execute c.fetched.registers) = p := ⟨_, rfl⟩
    have hd := (dispatch_of_run (c := c.fetched) rfl ⟨hp, rfl⟩).1
    rw [step_of_running h, execute_eq_dispatch, hd, hp]

theorem halted_step (h : c.registers.halted) : c.step.2.registers.halted := c.halted_step_iff.2 (.inl h)

end Core

namespace Machine

/-- What the next `n` steps carry out, in order. -/
def executions : Nat → Machine → List Occurrence
  | 0, _ => []
  | n + 1, m => m.core.executes.toList ++ executions n m.step.2

/-- What is seen at the program counter in those of the next `n` steps that carry out nothing. -/
def idleSights : Nat → Machine → List Occurrence
  | 0, _ => []
  | n + 1, m => (if m.core.executes.isNone then [m.core.sight] else []) ++ idleSights n m.step.2

variable {m : Machine}

theorem executions_of_running (h : ¬ m.core.registers.halted) (n : Nat) :
    m.executions (n + 1) = m.core.sight :: m.step.2.executions n := by
  rw [executions, Core.executes_of_running h]
  rfl

theorem idleSights_of_running (h : ¬ m.core.registers.halted) (n : Nat) :
    m.idleSights (n + 1) = m.step.2.idleSights n := by
  rw [idleSights, Core.executes_of_running h]
  rfl

theorem idleSights_of_halted (h : m.core.registers.halted) (n : Nat) :
    m.idleSights (n + 1) = m.core.sight :: m.step.2.idleSights n := by
  rw [idleSights, Core.executes_of_halted h]
  rfl

theorem executions_of_halted (h : m.core.registers.halted) (n : Nat) : m.executions n = [] := by
  induction n generalizing m with
  | zero => rfl
  | succ n ih =>
    rw [executions, Core.executes_of_halted h, ih (Core.halted_step h)]
    rfl

theorem idleSights_add (a b : Nat) (m : Machine) :
    m.idleSights (a + b) = m.idleSights a ++ (m.steps a).idleSights b := by
  induction a generalizing m with
  | zero =>
    rw [Nat.zero_add]
    rfl
  | succ a ih => rw [Nat.succ_add, idleSights, idleSights, ih, List.append_assoc, steps]

end Machine

namespace Instruction

theorem isCall_ofOpcode (opcode : UInt8) :
    (ofOpcode opcode).isCall = decide (opcode = 0x3F ∨ opcode = 0x4F ∨ opcode = 0x0F ∨ opcode &&& 0xF = 1) := by
  have all : ∀ n : Fin 256, (ofOpcode (UInt8.ofNat n)).isCall = decide (UInt8.ofNat n = 0x3F ∨ UInt8.ofNat n = 0x4F ∨
      UInt8.ofNat n = 0x0F ∨ UInt8.ofNat n &&& 0xF = 1) := by decide +kernel
  have h := all ⟨opcode.toNat, opcode.toNat_lt⟩
  rw [UInt8.ofNat_toNat] at h
  exact h

theorem isReturn_ofOpcode (opcode : UInt8) :
    (ofOpcode opcode).isReturn = decide (opcode = 0x6F ∨ opcode = 0x7F) := by
  have all : ∀ n : Fin 256, (ofOpcode (UInt8.ofNat n)).isReturn =
      decide (UInt8.ofNat n = 0x6F ∨ UInt8.ofNat n = 0x7F) := by decide +kernel
  have h := all ⟨opcode.toNat, opcode.toNat_lt⟩
  rw [UInt8.ofNat_toNat] at h
  exact h

end Instruction

namespace Debugger

theorem traceCall_eq_ite (opcode : UInt8) (pc : UInt16) (calls : List UInt16) :
    traceCall opcode pc calls =
      if (Instruction.ofOpcode opcode).isCall then pc :: calls
      else if (Instruction.ofOpcode opcode).isReturn then calls.tail
      else calls := by
  unfold traceCall
  generalize Instruction.ofOpcode opcode = i
  cases i <;> rfl

/-- The calls are CALL, PCALL, BRK and the sixteen TCALLs, the returns RET and RETI. -/
theorem traceCall_eq (opcode : UInt8) (pc : UInt16) (calls : List UInt16) :
    traceCall opcode pc calls =
      if opcode = 0x3F ∨ opcode = 0x4F ∨ opcode = 0x0F ∨ opcode &&& 0xF = 1 then pc :: calls
      else if opcode = 0x6F ∨ opcode = 0x7F then calls.tail
      else calls := by
  rw [traceCall_eq_ite, Instruction.isCall_ofOpcode, Instruction.isReturn_ofOpcode]
  simp only [decide_eq_true_eq]

theorem reverse_traceCall (opcode : UInt8) (pc : UInt16) (calls : List UInt16) :
    (traceCall opcode pc calls).reverse = follow calls.reverse ⟨pc, Instruction.ofOpcode opcode⟩ := by
  rw [traceCall_eq_ite]
  unfold follow
  split
  · exact List.reverse_cons
  · split
    · exact (List.dropLast_reverse ..).symm
    · rfl

namespace Session

theorem calls_step (s : Session) : s.step.calls.reverse = follow s.calls.reverse s.machine.core.sight :=
  reverse_traceCall ..

theorem machine_iterate (n : Nat) (s : Session) : (step^[n] s).machine = s.machine.steps n := by
  induction n generalizing s with
  | zero => rfl
  | succ n ih => exact ih s.step

theorem iterate_iterate (m n : Nat) (s : Session) : step^[n] (step^[m] s) = step^[m + n] s := by
  rw [Nat.add_comm, Function.iterate_add_apply]

theorem calls_iterate (n : Nat) (s : Session) :
    (step^[n] s).calls.reverse =
      (s.machine.idleSights n).foldl follow ((s.machine.executions n).foldl follow s.calls.reverse) := by
  induction n generalizing s with
  | zero => rfl
  | succ n ih =>
    rw [Function.iterate_succ_apply, ih, calls_step]
    change (s.machine.step.2.idleSights n).foldl follow ((s.machine.step.2.executions n).foldl follow _) = _
    by_cases h : s.machine.core.registers.halted
    · rw [Machine.executions_of_halted h, Machine.executions_of_halted (Core.halted_step h),
        Machine.idleSights_of_halted h]
      rfl
    · rw [Machine.executions_of_running h, Machine.idleSights_of_running h]
      rfl

/-- The trace has been the call stack all the time if and only if nothing that was seen without being executed would
have changed the call stack. -/
theorem calls_iterate_iff (n : Nat) (s : Session) :
    (∀ k ≤ n, (step^[k] s).calls.reverse = (s.machine.executions k).foldl follow s.calls.reverse) ↔
      ∀ o ∈ s.machine.idleSights n,
        follow ((s.machine.executions n).foldl follow s.calls.reverse) o =
          (s.machine.executions n).foldl follow s.calls.reverse := by
  induction n generalizing s with
  | zero =>
    refine iff_of_true (fun k hk ↦ ?_) (by simp [Machine.idleSights])
    obtain rfl := Nat.le_zero.1 hk
    rfl
  | succ n ih =>
    have hi := ih s.step
    have hc := s.calls_step
    have hm : s.step.machine = s.machine.step.2 := rfl
    rw [hm] at hi
    have hsplit : (∀ k ≤ n + 1, (step^[k] s).calls.reverse = (s.machine.executions k).foldl follow s.calls.reverse) ↔
        ∀ k ≤ n, (step^[k] s.step).calls.reverse = (s.machine.executions (k + 1)).foldl follow s.calls.reverse := by
      constructor
      · intro h k hk
        exact h (k + 1) (Nat.succ_le_succ hk)
      · intro h k hk
        cases k with
        | zero => rfl
        | succ k => exact h k (Nat.le_of_succ_le_succ hk)
    rw [hsplit]
    by_cases h : s.machine.core.registers.halted
    · have hh : s.machine.step.2.core.registers.halted := Core.halted_step h
      simp only [Machine.executions_of_halted hh, List.foldl_nil] at hi
      simp only [Machine.executions_of_halted h, Machine.idleSights_of_halted h, List.foldl_nil, List.forall_mem_cons]
      by_cases he : s.step.calls.reverse = s.calls.reverse
      · rw [he] at hi hc
        exact hi.trans (and_iff_right hc.symm).symm
      · exact iff_of_false (fun hk ↦ he (hk 0 (Nat.zero_le n))) fun ho ↦ he (hc.trans ho.1)
    · simp only [Machine.executions_of_running h, Machine.idleSights_of_running h, List.foldl_cons, ← hc]
      exact hi

def resumed : Nat → Session → Nat
  | 0, _ => 0
  | limit + 1, s => if s.stopLine?.isSome then 0 else resumed limit s.step + 1

/-- A session comes to another one by commands that step and run, in a number of steps. A run that nothing stops may go
on for ever, so a run counts as far as it has been looked at. -/
inductive Obeys : Session → List Command → Nat → Session → Prop
  | nil (s : Session) : Obeys s [] 0 s
  | step {s s' : Session} {commands : List Command} {n : Nat} :
      Obeys (s.perform .step).session commands n s' → Obeys s (.step :: commands) (1 + n) s'
  | steps {s s' : Session} {commands : List Command} {n : Nat} (m : Nat) :
      Obeys (s.perform (.steps m)).session commands n s' → Obeys s (.steps m :: commands) (m + n) s'
  | run {s s' : Session} {commands : List Command} {n : Nat} (limit : Nat) :
      Obeys ((s.perform .run).session.resume limit).2 commands n s' →
        Obeys s (.run :: commands) ((s.perform .run).session.resumed limit + n) s'

variable {s s' : Session} {commands : List Command} {n : Nat}

theorem steps_snd (n : Nat) (lines : List String) (s : Session) : (s.steps n lines).2 = step^[n] s := by
  induction n generalizing s lines with
  | zero => rfl
  | succ n ih => exact ih (s.stepLine :: lines) s.step

theorem not_halted_of_stopLine? (h : s.stopLine? = none) : ¬ s.machine.core.registers.halted := by
  intro hh
  simp only [stopLine?, Machine.registers, hh, if_true] at h
  split at h <;> cases h

/-- A run takes no step of a halted processor. -/
theorem resume_snd (limit : Nat) (s : Session) :
    (s.resume limit).2 = step^[s.resumed limit] s ∧ s.machine.idleSights (s.resumed limit) = [] := by
  induction limit generalizing s with
  | zero => exact ⟨rfl, rfl⟩
  | succ limit ih =>
    unfold resume resumed
    cases hs : s.stopLine? with
    | some line => exact ⟨rfl, rfl⟩
    | none =>
      obtain ⟨hr, hi⟩ := ih s.step
      refine ⟨hr, ?_⟩
      exact (Machine.idleSights_of_running (not_halted_of_stopLine? hs) _).trans hi

theorem Obeys.eq_iterate (h : s.Obeys commands n s') : s' = Session.step^[n] s := by
  induction h with
  | nil s => rfl
  | @step s _ _ n h ih => exact ih.trans (iterate_iterate 1 n s)
  | @steps s _ _ n m h ih =>
    have hs : (s.perform (.steps m)).session = Session.step^[m] s := steps_snd m [] s
    rw [ih, hs, iterate_iterate]
  | run limit h ih => rw [ih, (resume_snd ..).1, iterate_iterate]; rfl

theorem Obeys.idleSights_of_runs (h : s.Obeys commands n s') (hr : ∀ c ∈ commands, c = .run) :
    s.machine.idleSights n = [] := by
  induction h with
  | nil s => rfl
  | step h ih => exact absurd (hr _ List.mem_cons_self) nofun
  | steps m h ih => exact absurd (hr _ List.mem_cons_self) nofun
  | @run s _ _ n limit h ih =>
    obtain ⟨hs, hi⟩ := resume_snd limit s
    have hn := ih fun c hc ↦ hr c (List.mem_cons_of_mem _ hc)
    have hm : (s.resume limit).2.machine = s.machine.steps (s.resumed limit) := by rw [hs, machine_iterate]
    change (s.resume limit).2.machine.idleSights n = [] at hn
    change s.machine.idleSights (s.resumed limit + n) = []
    rw [Machine.idleSights_add, hi, ← hm, hn]
    rfl

theorem Obeys.machine_eq (h : s.Obeys commands n s') : s'.machine = s.machine.steps n := by
  rw [h.eq_iterate, machine_iterate]

theorem Obeys.calls_eq (hs : s.calls = []) (h : s.Obeys commands n s') :
    s'.calls.reverse = (s.machine.idleSights n).foldl follow (ofExecutions (s.machine.executions n)) := by
  have hc := s.calls_iterate n
  rw [hs, ← h.eq_iterate] at hc
  exact hc

theorem Obeys.calls_of_runs (hs : s.calls = []) (h : s.Obeys commands n s') (hr : ∀ c ∈ commands, c = .run) :
    s'.calls.reverse = ofExecutions (s.machine.executions n) := by
  rw [h.calls_eq hs, h.idleSights_of_runs hr]
  rfl

theorem agrees_iff (hs : s.calls = []) (n : Nat) :
    (∀ k ≤ n, (Session.step^[k] s).calls.reverse = ofExecutions (s.machine.executions k)) ↔
      ∀ o ∈ s.machine.idleSights n, o.instruction.isCall = false ∧
        (o.instruction.isReturn = true → ofExecutions (s.machine.executions n) = []) := by
  have hi := s.calls_iterate_iff n
  simp only [hs, follow_eq_self_iff] at hi
  exact hi

/-- A step carries out the instruction that the processor fetches, or it lets time pass and carries out nothing. The
trace of a session that has started with an empty one is made from the instructions that were carried out and, after
them, from what a halted processor still had at its program counter at each step. So it has been the call stack all the
time exactly if no call stood there, and no return below a call under way. A run never steps a halted processor. -/
theorem calls_eq_callStack_iff (hs : s.calls = []) (h : s.Obeys commands n s') :
    (∀ c : Core, c.Carries c.executes) ∧ s'.machine = s.machine.steps n ∧
      s'.calls.reverse = (s.machine.idleSights n).foldl follow (ofExecutions (s.machine.executions n)) ∧
      ((∀ k ≤ n, (Session.step^[k] s).calls.reverse = ofExecutions (s.machine.executions k)) ↔
        ∀ o ∈ s.machine.idleSights n, o.instruction.isCall = false ∧
          (o.instruction.isReturn = true → ofExecutions (s.machine.executions n) = [])) ∧
      ((∀ c ∈ commands, c = .run) → s'.calls.reverse = ofExecutions (s.machine.executions n)) :=
  ⟨Core.carries_executes, h.machine_eq, h.calls_eq hs, agrees_iff hs n, h.calls_of_runs hs⟩

/-- A boot program that calls a subroutine, which halts in front of its return. -/
def restingRom : BootRom where
  bytes := ⟨#[0x3F, 0xC4, 0xFF, 0x00, 0xEF, 0x6F] ++ Array.replicate 56 0x00 ++ #[0xC0, 0xFF]⟩
  size_eq := rfl

def resting : Session where
  machine := .start restingRom .zero (some Ram.zero.bytes)

theorem executions_resting : resting.machine.executions 3 = [⟨0xFFC0, .call⟩, ⟨0xFFC4, .halt⟩] := by decide +kernel

theorem idleSights_resting : resting.machine.idleSights 3 = [⟨0xFFC5, .ret⟩] := by decide +kernel

theorem calls_eq_callStack_iff_resting :
    let s' := ((resting.resume 10).2.perform .step).session
    resting.calls = [] ∧ resting.Obeys [.run, .step] 3 s' ∧
      ofExecutions (resting.machine.executions 3) = [0xFFC0] ∧ s'.calls = [] ∧
      ¬ ∀ k ≤ 3, (Session.step^[k] resting).calls.reverse = ofExecutions (resting.machine.executions k) := by
  intro s'
  have hn : resting.resumed 10 + (1 + 0) = 3 := by decide +kernel
  have ho : resting.Obeys [.run, .step] (resting.resumed 10 + (1 + 0)) s' := .run 10 (.step (.nil s'))
  rw [hn] at ho
  obtain ⟨-, -, hc, hi, -⟩ := calls_eq_callStack_iff rfl ho
  rw [executions_resting, idleSights_resting] at hc
  rw [idleSights_resting, executions_resting] at hi
  refine ⟨rfl, ho, ?_, ?_, ?_⟩
  · rw [executions_resting]
    decide
  · rw [← List.reverse_eq_nil_iff, hc]
    decide
  · rw [hi]
    decide

end Session

end Debugger

end SoundUnit
