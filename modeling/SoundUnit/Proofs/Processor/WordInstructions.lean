import SoundUnit.Proofs.Checked.Processor
import SoundUnit.Proofs.Processor.Addressing
import SoundUnit.Proofs.Processor.WordArithmetic

namespace SoundUnit

open Exec Word Arithmetic

namespace Core

variable (c : Core) (d : UInt8)

/-- The word in memory at an offset in the direct page; its second byte wraps inside the page. -/
def directWord : UInt16 :=
  word (c.bus.ram.read (c.registers.directAddress (d + 1))) (c.bus.ram.read (c.registers.directAddress d))

/-- There are no devices at the word. -/
def PlainWord : Prop :=
  Bus.Writable (c.registers.directAddress d) ∧ Bus.Writable (c.registers.directAddress (d + 1))

instance : Decidable (c.PlainWord d) := inferInstanceAs (Decidable (_ ∧ _))

end Core

namespace Registers

variable (r : Registers) (d : UInt8)

theorem directAddress_lt : (r.directAddress d).toNat < 0x200 := by
  have hd := d.toNat_lt
  unfold directAddress
  rw [toNat_word]
  split
  next =>
    change 256 * 1 + _ < _
    omega
  next =>
    change 256 * 0 + _ < _
    omega

theorem directAddress_succ_ne : r.directAddress (d + 1) ≠ r.directAddress d := by
  intro h
  have hd := d.toNat_lt
  have hl := congrArg UInt8.toNat (congrArg low h)
  simp only [directAddress, low_word, UInt8.toNat_add, UInt8.reduceToNat] at hl
  omega

end Registers

theorem Bus.peek_directAddress (b : Bus) (r : Registers) (d : UInt8) (h : Writable (r.directAddress d)) :
    b.peek (r.directAddress d) = b.ram.read (r.directAddress d) := by
  have hlt := r.directAddress_lt d
  have hl : Location.ofAddress (r.directAddress d) = .ram := by
    rcases (writable_iff _).1 h with hr | ⟨i, hi⟩
    · exact hr
    · have hc := Location.covers_ofAddress (r.directAddress d)
      rw [hi] at hc
      simp only [Location.Covers] at hc
      omega
  simp only [peek, hl]

namespace Exec

def rewriteWord (f : UInt16 → UInt16) : Exec Nat := do
  let offset ← fetch
  let w ← readDirectWord offset
  setStatus (·.ofWideResult (f w))
  writeDirectWord offset (f w)
  return 0

variable (r : Registers) (b : Bus)

theorem writeDirectWord_run (offset : UInt8) (w : UInt16) :
    (writeDirectWord offset w).Run r b
      [.write (r.directAddress offset) (low w), .write (r.directAddress (offset + 1)) (high w)] () r
      ((b.write (r.directAddress offset) (low w)).write (r.directAddress (offset + 1)) (high w)) := by
  have hl := Run.writeByte (r.directAddress offset) (low w) r b
  exact (Run.get r b).bind (hl.bind (.writeByte _ _ r _))

theorem keepWide_run (result : Option UInt16) :
    (keepWide result).Run r b [] 0 (result.elim r r.setYA) b := by
  cases result with
  | none => exact .pure 0 r b
  | some w => exact (Run.modify (·.setYA w) r b).map (.pure 0 _ b)

end Exec

namespace Core

variable (c : Core)

theorem wide_run :
    ∃ d lo hi bus,
      let log : List BusEvent := [.read c.registers.pc d, .read (c.registers.directAddress d) lo,
        .read (c.registers.directAddress (d + 1)) hi]
      c.bus.History log bus ∧ ∀ op : WideOp,
        let outcome := op.apply c.registers.ya (word hi lo) c.registers.status
        let r := { c.registers.advance 1 with status := outcome.2 }
        (Instruction.wide op).execute.Run c.registers c.bus log 0 (outcome.1.elim r r.setYA) bus := by
  have h₁ := Run.fetch c.registers c.bus
  generalize c.bus.peek c.registers.pc = d at h₁
  obtain ⟨lo, hi, bus, h₂⟩ : ∃ lo hi bus, (readDirectWord d).Run (c.registers.advance 1) _
      [.read (c.registers.directAddress d) lo, .read (c.registers.directAddress (d + 1)) hi] (word hi lo)
      (c.registers.advance 1) bus :=
    ⟨_, _, _, readDirectWord_run (c.registers.advance 1) (c.bus.clearOutputAt c.registers.pc) d⟩
  refine ⟨d, lo, hi, bus, (h₁.bind h₂).history, ?_⟩
  intro op outcome r
  have h₃ := Run.withStatus (op.apply c.registers.ya (word hi lo)) (c.registers.advance 1) bus
  exact h₁.bind (h₂.map ((Run.get _ _).bind (h₃.bind (keepWide_run r bus _))))

/-- A step of the processor puts `v` in place of the word at an offset. -/
structure RewritesTo (c : Core) (d : UInt8) (v : UInt16) (c' : Core) : Prop where
  registers_eq : c'.registers = { c.registers.advance 1 with status := c.registers.status.ofWideResult v }
  word_eq : c'.directWord d = v
  ram_eq : ∀ x, x ≠ c.registers.directAddress d → x ≠ c.registers.directAddress (d + 1) →
    c'.bus.ram.read x = c.bus.ram.read x

end Core

theorem Exec.readDirectWord_run_ram (r : Registers) (b : Bus) (d : UInt8) (hl : Bus.Writable (r.directAddress d))
    (hh : Bus.Writable (r.directAddress (d + 1))) :
    ∃ log b', b'.ram = b.ram ∧ (readDirectWord d).Run r b log
      (word (b.ram.read (r.directAddress (d + 1))) (b.ram.read (r.directAddress d))) r b' := by
  have h := readDirectWord_run r b d
  dsimp only at h
  rw [b.peek_directAddress r d hl, Bus.peek_directAddress _ r (d + 1) hh] at h
  refine ⟨_, _, ?_, h⟩
  rfl

namespace Core

section Rewrite

variable {c c' : Core} {d : UInt8} {v : UInt16}

theorem RewritesTo.of_writes {b : Bus} (hp : c.PlainWord d) (hr : b.ram = c.bus.ram)
    (hc : c' =
      { registers := { c.registers.advance 1 with status := c.registers.status.ofWideResult v }
        bus := (b.write (c.registers.directAddress d) (low v)).write (c.registers.directAddress (d + 1)) (high v) }) :
    c.RewritesTo d v c' := by
  have hne := c.registers.directAddress_succ_ne d
  have hram : c'.bus.ram =
      (c.bus.ram.write (c.registers.directAddress d) (low v)).write (c.registers.directAddress (d + 1)) (high v) := by
    rw [hc, Bus.ram_write, if_pos hp.2, Bus.ram_write, if_pos hp.1, hr]
  have hregisters : c'.registers = { c.registers.advance 1 with status := c.registers.status.ofWideResult v } := by
    rw [hc]
  refine ⟨hregisters, ?_, ?_⟩
  · unfold directWord
    rw [hregisters, hram]
    change word (Ram.read _ (c.registers.directAddress (d + 1))) (Ram.read _ (c.registers.directAddress d)) = v
    rw [Ram.read_write_self, Ram.read_write_of_ne _ hne.symm, Ram.read_write_self, word_high_low]
  · intro x hl hh
    rw [hram, Ram.read_write_of_ne _ hh, Ram.read_write_of_ne _ hl]

theorem dispatch_rewriteWord {opcode : UInt8} {i : Instruction} {f : UInt16 → UInt16}
    (hi : Instruction.ofOpcode opcode = i) (he : i.execute = rewriteWord f) (hd : c.bus.peek c.registers.pc = d)
    (hp : c.PlainWord d) : c.RewritesTo d (f (c.directWord d)) (c.dispatch opcode).2 := by
  have h₁ := Run.fetch c.registers c.bus
  rw [hd] at h₁
  obtain ⟨log, b, hb, h₂⟩ :=
    readDirectWord_run_ram (c.registers.advance 1) (c.bus.clearOutputAt c.registers.pc) d hp.1 hp.2
  have h₃ := Run.setStatus (·.ofWideResult (f (c.directWord d))) (c.registers.advance 1) b
  have h₄ := writeDirectWord_run
    { c.registers.advance 1 with status := c.registers.status.ofWideResult (f (c.directWord d)) } b d
    (f (c.directWord d))
  have h : (rewriteWord f).Run c.registers c.bus _ _ _ _ := h₁.bind (h₂.bind (h₃.bind (h₄.map (.pure 0 _ _))))
  rw [← he] at h
  refine .of_writes hp hb ?_
  rw [(dispatch_of_run hi h).1]
  rfl

theorem dispatch_increment (hd : c.bus.peek c.registers.pc = d) (hp : c.PlainWord d) :
    c.RewritesTo d (c.directWord d + 1) (c.dispatch 0x3A).2 := by
  have hi : Instruction.ofOpcode 0x3A = .incrementWide := rfl
  have he : Instruction.incrementWide.execute = rewriteWord (· + 1) := rfl
  exact dispatch_rewriteWord hi he hd hp

theorem dispatch_decrement (hd : c.bus.peek c.registers.pc = d) (hp : c.PlainWord d) :
    c.RewritesTo d (c.directWord d - 1) (c.dispatch 0x1A).2 := by
  have hi : Instruction.ofOpcode 0x1A = .decrementWide := rfl
  have he : Instruction.decrementWide.execute = rewriteWord (· - 1) := rfl
  exact dispatch_rewriteWord hi he hd hp

theorem PlainWord.of_directPage (hp : c.PlainWord d)
    (h : c'.registers.status.directPage = c.registers.status.directPage) : c'.PlainWord d := by
  have ha (x : UInt8) : c'.registers.directAddress x = c.registers.directAddress x := by
    unfold Registers.directAddress
    rw [h]
  unfold PlainWord
  rw [ha, ha]
  exact hp

theorem directWord_restored (hd : c.bus.peek c.registers.pc = d) (hp : c.PlainWord d)
    (hd' : c'.bus.peek c'.registers.pc = d)
    (hpage : c'.registers.status.directPage = c.registers.status.directPage)
    (hw : c'.directWord d = (c.dispatch 0x3A).2.directWord d) :
    (c'.dispatch 0x1A).2.directWord d = c.directWord d := by
  have hinc := dispatch_increment hd hp
  have hdec := dispatch_decrement hd' (hp.of_directPage hpage)
  rw [hdec.word_eq, hw, hinc.word_eq]
  exact UInt16.add_sub_cancel _ _

end Rewrite

def stepsWord : Core where
  registers := { pc := 1 }
  bus := { ram := (((Ram.zero.write 1 0x10).write 2 0x1A).write 3 0x10).write 0x10 0xFF, bootRom := .standard }

end Core

end SoundUnit
