import SoundUnit.Proofs.Processor.Addressing

namespace SoundUnit

open Exec

theorem word_injective {high low low' : UInt8} (h : word high low = word high low') : low = low' := by
  rw [← Word.low_word high low, h, Word.low_word]

theorem add_ofNat_succ (x : UInt8) (n : Nat) : x + UInt8.ofNat (n + 1) = x + 1 + UInt8.ofNat n := by
  rw [Nat.add_comm, UInt8.ofNat_add, UInt8.add_assoc]
  rfl

theorem sub_ofNat_succ (x : UInt8) (n : Nat) : x - UInt8.ofNat (n + 1) = x - 1 - UInt8.ofNat n := by
  have h := UInt8.ofNat_add n 1
  have h1 : UInt8.ofNat 1 = 1 := rfl
  grind

namespace Ram

/-- The `n` bytes above the stack pointer. -/
def stack (ram : Ram) (sp : UInt8) : Nat → List UInt8
  | 0 => []
  | n + 1 => ram.read (word 1 (sp + 1)) :: ram.stack (sp + 1) n

/-- Memory after some bytes have been pushed. -/
def push (ram : Ram) (sp : UInt8) : List UInt8 → Ram
  | [] => ram
  | data :: rest => (ram.write (word 1 sp) data).push (sp - 1) rest

variable (ram : Ram) (sp : UInt8)

@[simp] theorem length_stack (n : Nat) : (ram.stack sp n).length = n := by
  induction n generalizing sp with
  | zero => rfl
  | succ n ih => exact congrArg (· + 1) (ih (sp + 1))

theorem stack_add (m n : Nat) : ram.stack sp (m + n) = ram.stack sp m ++ ram.stack (sp + UInt8.ofNat m) n := by
  induction m generalizing sp with
  | zero => simp [stack]
  | succ m ih =>
    rw [Nat.add_right_comm, stack, ih, add_ofNat_succ]
    rfl

theorem stack_write {x : UInt8} {n : Nat} (h : ∀ k < n, sp + UInt8.ofNat (k + 1) ≠ x) (data : UInt8) :
    (ram.write (word 1 x) data).stack sp n = ram.stack sp n := by
  induction n generalizing sp with
  | zero => rfl
  | succ n ih =>
    have hx : word 1 (sp + 1) ≠ word 1 x := fun e ↦ h 0 (Nat.succ_pos n) (word_injective e)
    have hn : ∀ k < n, sp + 1 + UInt8.ofNat (k + 1) ≠ x := by
      intro k hk
      have hs := h (k + 1) (Nat.succ_lt_succ hk)
      rwa [add_ofNat_succ] at hs
    rw [stack, stack, ram.read_write_of_ne hx, ih (sp + 1) hn]

theorem stack_write_self {n : Nat} (h : n < 0x100) (data : UInt8) :
    (ram.write (word 1 sp) data).stack sp n = ram.stack sp n := by
  refine ram.stack_write sp (fun k hk e ↦ ?_) data
  rw [← UInt8.toNat_inj, UInt8.toNat_add, UInt8.toNat_ofNat'] at e
  have hs := sp.toNat_lt
  omega

theorem stack_push {n : Nat} (bytes : List UInt8) (h : bytes.length + n ≤ 0x100) :
    (ram.push sp bytes).stack (sp - UInt8.ofNat bytes.length) (bytes.length + n) =
      bytes.reverse ++ ram.stack sp n := by
  induction bytes generalizing ram sp n with
  | nil => simp [push]
  | cons data rest ih =>
    rw [List.length_cons] at h
    have hp := ih (ram.write (word 1 sp) data) (sp - 1) (n := n + 1) (by omega)
    rw [stack, UInt8.sub_add_cancel, read_write_self, ram.stack_write_self sp (by omega)] at hp
    rw [List.length_cons, sub_ofNat_succ, Nat.add_right_comm, Nat.add_assoc, push, hp]
    simp

end Ram

namespace Bus

theorem ofAddress_stack (sp : UInt8) : Location.ofAddress (word 1 sp) = .ram := by
  have hs := sp.toNat_lt
  rw [Location.ofAddress_eq_iff, Word.toNat_word]
  simp only [Location.Covers, UInt8.reduceToNat]
  omega

variable (b : Bus) (sp data : UInt8)

def push (bytes : List UInt8) : Bus := { b with ram := b.ram.push sp bytes }

theorem write_stack : b.write (word 1 sp) data = b.push sp [data] := by
  unfold write
  rw [ofAddress_stack]
  rfl

theorem peek_stack : b.peek (word 1 sp) = b.ram.read (word 1 sp) := by
  unfold peek
  rw [ofAddress_stack]

theorem clearOutputAt_stack : b.clearOutputAt (word 1 sp) = b := by
  refine b.clearOutputAt_of_ne _ fun i hi ↦ ?_
  rw [← Location.ofAddress_eq_timerOutput, ofAddress_stack] at hi
  cases hi

end Bus

def popEvents (sp : UInt8) : List UInt8 → List BusEvent
  | [] => []
  | data :: rest => .read (word 1 (sp + 1)) data :: popEvents (sp + 1) rest

namespace Exec.Run

variable (r : Registers) (b : Bus)

theorem jumpTo (addr : UInt16) : (jumpTo addr).Run r b [] () { r with pc := addr } b := ⟨rfl, rfl⟩

theorem pushByte (data : UInt8) :
    (pushByte data).Run r b [.write r.stackAddress data] () { r with sp := r.sp - 1 } (b.push r.sp [data]) := by
  rw [← b.write_stack]
  exact ⟨rfl, rfl⟩

theorem pushReturn :
    pushReturn.Run r b [.write r.stackAddress (Word.high r.pc), .write (word 1 (r.sp - 1)) (Word.low r.pc)] ()
      { r with sp := r.sp - 1 - 1 } (b.push r.sp [Word.high r.pc, Word.low r.pc]) := by
  have high := Run.pushByte r b (Word.high r.pc)
  have low := Run.pushByte { r with sp := r.sp - 1 } (b.push r.sp [Word.high r.pc]) (Word.low r.pc)
  exact (Run.get r b).bind (high.bind low)

theorem popByte :
    popByte.Run r b (popEvents r.sp (b.ram.stack r.sp 1)) (b.ram.read (word 1 (r.sp + 1)))
      { r with sp := r.sp + 1 } b := by
  have h := Run.readByte (word 1 (r.sp + 1)) { r with sp := r.sp + 1 } b
  rw [b.peek_stack, b.clearOutputAt_stack] at h
  exact ⟨h.perform_eq, h.accesses_eq⟩

theorem popWord :
    popWord.Run r b (popEvents r.sp (b.ram.stack r.sp 2))
      (word (b.ram.read (word 1 (r.sp + 1 + 1))) (b.ram.read (word 1 (r.sp + 1)))) { r with sp := r.sp + 1 + 1 } b := by
  have low := Run.popByte r b
  have high := Run.popByte { r with sp := r.sp + 1 } b
  exact low.bind (high.map (.pure _ _ _))

end Exec.Run

namespace Instruction

def returnAddress (i : Instruction) (pc : UInt16) : UInt16 :=
  match i with
  | call => pc + 3
  | callPage => pc + 2
  | _ => pc + 1

/-- What an instruction pushes if it is executed with the registers `r`, the first byte first. -/
def pushes (i : Instruction) (r : Registers) : List UInt8 :=
  match i with
  | call | callPage | callTable _ => [Word.high (i.returnAddress r.pc), Word.low (i.returnAddress r.pc)]
  | trap => [Word.high (i.returnAddress r.pc), Word.low (i.returnAddress r.pc), r.status.toByte]
  | push (.register name) => [r.get name]
  | push .status => [r.status.toByte]
  | _ => []

def pops : Instruction → Nat
  | ret => 2
  | retTrap => 3
  | pop _ => 1
  | _ => 0

/-- What an instruction makes of the registers with the bytes that it pops, the first byte first. -/
def restore (i : Instruction) (r : Registers) (bytes : List UInt8) : Registers :=
  match i, bytes with
  | ret, [low, high] => { r with pc := word high low, sp := r.sp + 2 }
  | retTrap, [status, low, high] => { r with pc := word high low, sp := r.sp + 3, status := .ofByte status }
  | pop (.register name), [data] => { r.advance 1 with sp := r.sp + 1 }.set name data
  | pop .status, [data] => { r.advance 1 with sp := r.sp + 1, status := .ofByte data }
  | _, _ => r

theorem restore_sp {i : Instruction} {bytes : List UInt8} (h : i.pops = bytes.length) (hb : bytes ≠ [])
    (r : Registers) : (i.restore r bytes).sp = r.sp + UInt8.ofNat bytes.length := by
  cases i with
  | ret =>
    obtain ⟨low, high, rfl⟩ := List.length_eq_two.1 h.symm
    rfl
  | retTrap =>
    obtain ⟨status, low, high, rfl⟩ := List.length_eq_three.1 h.symm
    rfl
  | pop stacked =>
    obtain ⟨data, rfl⟩ := List.length_eq_one_iff.1 h.symm
    cases stacked with
    | register name => cases name <;> rfl
    | status => rfl
  | _ => exact absurd (List.eq_nil_of_length_eq_zero h.symm) hb

variable {i : Instruction} {r : Registers} (b : Bus)

theorem execute_pushes (h : i.pushes r ≠ []) :
    ∃ log r' b', i.execute.Run (r.advance 1) b log 0 r' b' ∧ r'.sp = r.sp - UInt8.ofNat (i.pushes r).length ∧
      b'.ram = b.ram.push r.sp (i.pushes r) := by
  have two : r.sp - 1 - 1 = r.sp - 2 := by grind
  have three : r.sp - 1 - 1 - 1 = r.sp - 3 := by grind
  cases i with
  | call =>
    obtain ⟨low, high, b', hb, hf⟩ := fetchWord_run (r.advance 1) b
    rw [r.advance_advance] at hf
    have hp := Run.pushReturn (r.advance 3) b'
    refine ⟨_, _, _, hf.bind (hp.map ((Run.jumpTo _ _ _).map (.pure _ _ _))), two, ?_⟩
    rw [← hb]
    rfl
  | callPage =>
    have hf := Run.fetch (r.advance 1) b
    rw [r.advance_advance] at hf
    have hp := Run.pushReturn (r.advance 2) (b.clearOutputAt (r.advance 1).pc)
    exact ⟨_, _, _, hf.bind (hp.map ((Run.jumpTo _ _ _).map (.pure _ _ _))), two, rfl⟩
  | callTable n =>
    have hp := Run.pushReturn (r.advance 1) b
    obtain ⟨log, addr, b', hb, hv⟩ := readWord_run _ _ (SoundUnit.callTable - 2 * n.val.toUInt16)
    exact ⟨_, _, _, hp.bind (hv.map ((Run.jumpTo _ _ _).map (.pure _ _ _))), two, hb⟩
  | trap =>
    have hp := Run.pushReturn (r.advance 1) b
    obtain ⟨log, addr, b', hb, hv⟩ := readWord_run _ _ SoundUnit.callTable
    exact ⟨_, _, _, hp.bind ((Run.get _ _).bind ((Run.pushByte _ _ _).bind ((Run.setStatus _ _ _).bind
      (hv.map ((Run.jumpTo _ _ _).map (.pure _ _ _)))))), three, hb⟩
  | push stacked =>
    cases stacked with
    | register name => exact ⟨_, _, _, (Run.get _ _).bind ((Run.pushByte _ _ _).map (.pure _ _ _)), rfl, rfl⟩
    | status => exact ⟨_, _, _, (Run.get _ _).bind ((Run.pushByte _ _ _).map (.pure _ _ _)), rfl, rfl⟩
  | _ => exact absurd rfl h

theorem execute_pops (h : i.pops ≠ 0) :
    i.execute.Run (r.advance 1) b (popEvents r.sp (b.ram.stack r.sp i.pops)) 0
      (i.restore r (b.ram.stack r.sp i.pops)) b := by
  have two : r.sp + 1 + 1 = r.sp + 2 := by grind
  have three : r.sp + 1 + 1 + 1 = r.sp + 3 := by grind
  cases i with
  | ret =>
    have hp := Run.popWord (r.advance 1) b
    simp only [restore, pops, Ram.stack, ← two]
    exact hp.map ((Run.jumpTo _ _ _).map (.pure _ _ _))
  | retTrap =>
    have hs := Run.popByte (r.advance 1) b
    have hp := Run.popWord { r.advance 1 with sp := r.sp + 1, status := .ofByte (b.ram.read (word 1 (r.sp + 1))) } b
    simp only [restore, pops, Ram.stack, ← three]
    exact hs.bind ((Run.setStatus _ _ _).bind (hp.map ((Run.jumpTo _ _ _).map (.pure _ _ _))))
  | pop stacked =>
    have hp := Run.popByte (r.advance 1) b
    cases stacked with
    | register name => exact hp.map ((Run.modify _ _ _).map (.pure _ _ _))
    | status => exact hp.map ((Run.setStatus _ _ _).map (.pure _ _ _))
  | _ => exact absurd rfl h

end Instruction

namespace Core

variable (c : Core)

def instruction : Instruction := .ofOpcode (c.bus.peek c.registers.pc)

def stack (n : Nat) : List UInt8 := c.bus.ram.stack c.registers.sp n

def pushes : List UInt8 := c.instruction.pushes c.registers

theorem execute_pushes (h : c.pushes ≠ []) :
    c.execute.2.registers.sp = c.registers.sp - UInt8.ofNat c.pushes.length ∧
      c.execute.2.bus.ram = c.bus.ram.push c.registers.sp c.pushes := by
  obtain ⟨log, r', b', hr, hs⟩ := Instruction.execute_pushes c.fetched.bus h
  rw [c.execute_eq_dispatch, (c.fetched.dispatch_of_run rfl hr).1]
  exact hs

theorem execute_pops (h : c.instruction.pops ≠ 0) :
    let bytes := c.stack c.instruction.pops
    c.execute.2 = { registers := c.instruction.restore c.registers bytes, bus := c.fetched.bus } ∧
      c.fetched.dispatchEvents (c.bus.peek c.registers.pc) = popEvents c.registers.sp bytes := by
  have hr := c.fetched.dispatch_of_run rfl (Instruction.execute_pops (r := c.registers) c.fetched.bus h)
  rw [c.execute_eq_dispatch, hr.1]
  exact ⟨rfl, hr.2⟩

end Core

end SoundUnit
