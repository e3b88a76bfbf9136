import SoundUnit.Proofs.Checked.Arithmetic
import SoundUnit.Proofs.Processor.Clocks

namespace SoundUnit

open Checked

namespace Bit

def mask? (i : Nat) : Option UInt8 := do
  let i ← below 32 i
  return UInt8.ofNat (1 <<< i)

def test? (b : UInt8) (i : Nat) : Option Bool := do
  let m ← mask? i
  return b &&& m ≠ 0

def assign? (b : UInt8) (i : Nat) (value : Bool) : Option UInt8 := do
  let m ← mask? i
  return if value then b ||| m else b &&& ~~~m

theorem mask?_eq (i : Fin 8) : mask? i.val = some (mask i) := by
  revert i
  decide

theorem and_mask_ne_zero (b : UInt8) (i : Fin 8) : decide (b &&& mask i ≠ 0) = test b i := by
  have all : ∀ n : Fin 256, ∀ i : Fin 8, decide (UInt8.ofNat n &&& mask i ≠ 0) = test (UInt8.ofNat n) i := by
    decide +kernel
  simpa using all ⟨b.toNat, b.toNat_lt⟩ i

theorem test?_eq (b : UInt8) (i : Fin 8) : test? b i.val = some (test b i) := by
  unfold test?
  rw [mask?_eq, Option.bind_eq_bind, Option.bind_some, and_mask_ne_zero]
  rfl

theorem assign?_eq (b : UInt8) (i : Fin 8) (value : Bool) : assign? b i.val value = some (assign b i value) := by
  unfold assign?
  rw [mask?_eq]
  rfl

end Bit

namespace Arithmetic

def addCarry? (a b : UInt8) (s : Status) : Option (UInt8 × Status) := do
  let sum ← below wordBound (a.toNat + b.toNat)
  let total ← below wordBound (sum + s.carry.toNat)
  let result := total.toUInt8
  return (result, { s.ofResult result with
    overflow := (~~~(a ^^^ b) &&& (a ^^^ result) &&& 0x80) ≠ 0
    halfCarry := ((a ^^^ b ^^^ result) &&& 0x10) ≠ 0
    carry := 0xFF < total })

def addWide? (a b : UInt16) (s : Status) : Option (UInt16 × Status) := do
  let (low, s) ← addCarry? (Word.low a) (Word.low b) { s with carry := false }
  let (high, s) ← addCarry? (Word.high a) (Word.high b) s
  return (word high low, { s with zero := low = 0 ∧ high = 0 })

def subtractWide? (a b : UInt16) (s : Status) : Option (UInt16 × Status) := do
  let (low, s) ← addCarry? (Word.low a) (~~~Word.low b) { s with carry := true }
  let (high, s) ← addCarry? (Word.high a) (~~~Word.high b) s
  return (word high low, { s with zero := low = 0 ∧ high = 0 })

def multiply? (y a : UInt8) (s : Status) : Option (UInt16 × Status) := do
  let product ← below wordBound (y.toNat * a.toNat)
  let product := UInt16.ofNat product
  return (product, s.ofResult (Word.high product))

def quotientAndRemainder? (y dividend divisor : Nat) : Option (Nat × Nat) :=
  if y < 2 * divisor then do
    let q ← quotient dividend divisor
    let r ← remainder dividend divisor
    return (q, r)
  else do
    let excess ← difference dividend (512 * divisor)
    let complement ← difference 256 divisor
    let above ← quotient excess complement
    let q ← difference 255 above
    let rest ← remainder excess complement
    let r ← below longBound (divisor + rest)
    return (q, r)

def divide? (y a x : UInt8) (s : Status) : Option (UInt8 × UInt8 × Status) := do
  let (q, r) ← quotientAndRemainder? y.toNat (y.toNat * 256 + a.toNat) x.toNat
  return (q.toUInt8, r.toUInt8, { s.ofResult q.toUInt8 with overflow := x ≤ y, halfCarry := x &&& 0xF ≤ y &&& 0xF })

theorem addCarry?_eq (a b : UInt8) (s : Status) : addCarry? a b s = some (addCarry a b s) := by
  have ha := a.toNat_lt
  have hb := b.toNat_lt
  have hc : s.carry.toNat ≤ 1 := s.carry.toNat_le
  unfold addCarry? wordBound
  simp (disch := omega) only [below_of, Option.bind_eq_bind, Option.bind_some]
  rfl

theorem addWide?_eq (a b : UInt16) (s : Status) : addWide? a b s = some (addWide a b s) := by
  unfold addWide?
  simp only [addCarry?_eq, Option.bind_eq_bind, Option.bind_some]
  rfl

theorem subtractWide?_eq (a b : UInt16) (s : Status) : subtractWide? a b s = some (subtractWide a b s) := by
  unfold subtractWide?
  simp only [addCarry?_eq, Option.bind_eq_bind, Option.bind_some]
  rfl

theorem multiply?_eq (y a : UInt8) (s : Status) : multiply? y a s = some (multiply y a s) := by
  have hp : y.toNat * a.toNat ≤ 255 * 255 :=
    Nat.mul_le_mul (Nat.le_of_lt_succ y.toNat_lt) (Nat.le_of_lt_succ a.toNat_lt)
  have he : UInt16.ofNat (y.toNat * a.toNat) = y.toUInt16 * a.toUInt16 := by
    rw [← UInt16.toNat_inj, UInt16.toNat_mul, UInt8.toNat_toUInt16, UInt8.toNat_toUInt16, UInt16.toNat_ofNat']
  unfold multiply?
  rw [below_of (by unfold wordBound; omega), Option.bind_eq_bind, Option.bind_some, he]
  rfl

theorem quotientAndRemainder?_of_lt {y x : Nat} (h : y < 2 * x) (dividend : Nat) :
    quotientAndRemainder? y dividend x = some (dividend / x, dividend % x) := by
  have hd : x ≠ 0 := by omega
  unfold quotientAndRemainder?
  rw [if_pos h, quotient_of hd, remainder_of hd]
  rfl

/-- Beyond nine bits the divider counts down from 255 with the complement of the divisor, and it does not get below 0.
-/
theorem quotientAndRemainder?_of_le {y a x : Nat} (h : 2 * x ≤ y) (hy : y < 256) (ha : a < 256) :
    (y * 256 + a - 512 * x) / (256 - x) < 256 ∧
      quotientAndRemainder? y (y * 256 + a) x =
        some (255 - (y * 256 + a - 512 * x) / (256 - x), x + (y * 256 + a - 512 * x) % (256 - x)) := by
  have hd : 256 - x ≠ 0 := by omega
  have hq : (y * 256 + a - 512 * x) / (256 - x) < 256 := Nat.div_lt_of_lt_mul (by omega)
  have hr : (y * 256 + a - 512 * x) % (256 - x) < 256 - x := Nat.mod_lt _ (Nat.pos_of_ne_zero hd)
  have hb : x + (y * 256 + a - 512 * x) % (256 - x) < longBound := by
    unfold longBound
    omega
  refine ⟨hq, ?_⟩
  unfold quotientAndRemainder?
  simp only [if_neg (Nat.not_lt.2 h), difference_of (show 512 * x ≤ y * 256 + a by omega),
    difference_of (show x ≤ 256 by omega), quotient_of hd, remainder_of hd, difference_of (Nat.le_of_lt_succ hq),
    below_of hb, Option.bind_eq_bind, Option.bind_some]
  rfl

theorem divide?_eq (y a x : UInt8) (s : Status) : divide? y a x s = some (divide y a x s) := by
  unfold divide? divide
  dsimp only
  split
  next h =>
    rw [quotientAndRemainder?_of_lt h]
    rfl
  next h =>
    rw [(quotientAndRemainder?_of_le (Nat.not_lt.1 h) y.toNat_lt a.toNat_lt).2]
    rfl

end Arithmetic

open Arithmetic

def BinaryOp.evaluate? : BinaryOp → UInt8 → UInt8 → Status → Option (Option UInt8 × Status)
  | .add, a, b, s => do
    let (r, s) ← addCarry? a b s
    return (some r, s)
  | .subtract, a, b, s => do
    let (r, s) ← addCarry? a (~~~b) s
    return (some r, s)
  | op, a, b, s => some (op.apply a b s)

def WideOp.evaluate? : WideOp → UInt16 → UInt16 → Status → Option (Option UInt16 × Status)
  | .add, a, b, s => do
    let (r, s) ← addWide? a b s
    return (some r, s)
  | .subtract, a, b, s => do
    let (r, s) ← subtractWide? a b s
    return (some r, s)
  | .compare, a, b, s => some (none, compareWide a b s)

theorem BinaryOp.evaluate?_eq (op : BinaryOp) (a b : UInt8) (s : Status) :
    op.evaluate? a b s = some (op.apply a b s) := by
  cases op with
  | add =>
    simp only [evaluate?, addCarry?_eq, Option.bind_eq_bind, Option.bind_some]
    rfl
  | subtract =>
    simp only [evaluate?, addCarry?_eq, Option.bind_eq_bind, Option.bind_some]
    rfl
  | _ => rfl

theorem WideOp.evaluate?_eq (op : WideOp) (a b : UInt16) (s : Status) :
    op.evaluate? a b s = some (op.apply a b s) := by
  cases op with
  | add =>
    simp only [evaluate?, addWide?_eq, Option.bind_eq_bind, Option.bind_some]
    rfl
  | subtract =>
    simp only [evaluate?, subtractWide?_eq, Option.bind_eq_bind, Option.bind_some]
    rfl
  | compare => rfl

namespace Access

variable {α β σ : Type}

/-- The reads and writes of a computation on a memory where an access can fail. -/
def run? (onRead? : UInt16 → σ → Option (UInt8 × σ)) (onWrite? : UInt16 → UInt8 → σ → Option σ) :
    Access α → σ → Option (α × σ)
  | done value, s => some (value, s)
  | read addr next, s => do
    let (data, s) ← onRead? addr s
    run? onRead? onWrite? (next data) s
  | write addr data next, s => do
    let s ← onWrite? addr data s
    run? onRead? onWrite? next s

theorem run?_eq {onRead? : UInt16 → σ → Option (UInt8 × σ)} {onWrite? : UInt16 → UInt8 → σ → Option σ}
    {onRead : UInt16 → σ → UInt8 × σ} {onWrite : UInt16 → UInt8 → σ → σ}
    (hr : ∀ addr s, onRead? addr s = some (onRead addr s))
    (hw : ∀ addr data s, onWrite? addr data s = some (onWrite addr data s)) (p : Access α) (s : σ) :
    p.run? onRead? onWrite? s = some (p.run onRead onWrite s) := by
  induction p generalizing s with
  | done value => rfl
  | read addr next ih =>
    unfold run?
    rw [hr]
    exact ih _ _
  | write addr data next ih =>
    unfold run?
    rw [hw]
    exact ih _

theorem Yields.bind_congr {P : α → Prop} {p : Access α} {f g : α → Access β} (hp : p.Yields P)
    (h : ∀ a, P a → f a = g a) : p.bind f = p.bind g := by
  induction p with
  | done value => exact h value hp
  | read addr next ih => exact congrArg (Access.read addr) (funext fun data ↦ ih data (hp data))
  | write addr data next ih => exact congrArg (Access.write addr data) (ih hp)

end Access

/-- A piece of an instruction that can fail. -/
abbrev Attempt := StateT Registers (OptionT Access)

namespace Attempt

variable {α β : Type}

def lift (e : Exec α) : Attempt α := fun r ↦ OptionT.mk ((e r).bind fun x ↦ .done (some x))

def of (x : Option α) : Attempt α := fun r ↦ OptionT.mk (.done (x.map fun a ↦ (a, r)))

def withStatus? (f : Status → Option (α × Status)) : Attempt α := do
  let r ← lift get
  let (a, status) ← of (f r.status)
  lift (set { r with status })
  return a

theorem lift_pure (a : α) : lift (pure a) = pure a := rfl

theorem lift_bind (e : Exec α) (f : α → Exec β) : lift (e >>= f) = lift e >>= fun a ↦ lift (f a) := by
  funext r
  refine (Access.bind_assoc ..).trans (Eq.symm ?_)
  change ((e r).bind fun x ↦ .done (some x)).bind _ = _
  rw [Access.bind_assoc]
  rfl

theorem of_some_bind (a : α) (f : α → Attempt β) : of (some a) >>= f = f a := rfl

theorem lift_bind_congr {e : Exec Nat} {n : Nat} (he : Exec.AtMost n e) {f? : Nat → Attempt β} {f : Nat → Exec β}
    (h : ∀ k ≤ n, f? k = lift (f k)) : lift e >>= f? = lift (e >>= f) := by
  rw [lift_bind]
  funext r
  change ((e r).bind fun x ↦ .done (some x)).bind _ = ((e r).bind fun x ↦ .done (some x)).bind _
  rw [Access.bind_assoc, Access.bind_assoc]
  exact (he r).bind_congr fun x hx ↦ congrFun (h x.1 hx) x.2

theorem withStatus?_eq {f? : Status → Option (α × Status)} {f : Status → α × Status} (h : ∀ s, f? s = some (f s)) :
    withStatus? f? = lift (Exec.withStatus f) := by
  funext r
  unfold withStatus?
  simp only [h]
  rfl

end Attempt

namespace Exec

def writeBack (cell : Cell) (result : Option UInt8) : Exec Nat := do
  if let some result := result then writeCell cell result
  return 0

def keepWide (result : Option UInt16) : Exec Nat := do
  if let some result := result then modify (·.setYA result)
  return 0

end Exec

namespace Instruction

open Exec Attempt

def execute? : Instruction → Attempt Nat
  | binary op target source => do
    let b ← lift (readOperand source)
    let cell ← lift (locate target)
    let a ← lift (readCell cell)
    let result ← withStatus? (op.evaluate? a b)
    lift (writeBack cell result)
  | wide op => do
    let offset ← lift fetch
    let w ← lift (readDirectWord offset)
    let r ← lift get
    let result ← withStatus? (op.evaluate? r.ya w)
    lift (keepWide result)
  | multiply => do
    let r ← lift get
    let product ← withStatus? (Arithmetic.multiply? r.y r.a)
    lift (modify (·.setYA product))
    return 0
  | divide => do
    let r ← lift get
    let (a, y, status) ← of (Arithmetic.divide? r.y r.a r.x r.status)
    lift (set { r with a, y, status })
    return 0
  | assignBit i value => do
    let addr ← lift (address .direct)
    let data ← lift (readByte addr)
    let data ← of (Bit.assign? data i.val value)
    lift (writeByte addr data)
    return 0
  | carryBit op => do
    let w ← lift fetchWord
    let data ← lift (readByte (w &&& 0x1FFF))
    let bit ← of (Bit.test? data (w >>> 13).toNat)
    lift (setStatus fun s ↦ { s with carry := op.apply s.carry bit })
    return 0
  | complementBit => do
    let w ← lift fetchWord
    let data ← lift (readByte (w &&& 0x1FFF))
    let mask ← of (Bit.mask? (w >>> 13).toNat)
    lift (writeByte (w &&& 0x1FFF) (data ^^^ mask))
    return 0
  | storeCarry => do
    let w ← lift fetchWord
    let data ← lift (readByte (w &&& 0x1FFF))
    let r ← lift get
    let data ← of (Bit.assign? data (w >>> 13).toNat r.status.carry)
    lift (writeByte (w &&& 0x1FFF) data)
    return 0
  | branchBit i value => do
    let addr ← lift (address .direct)
    let data ← lift (readByte addr)
    let bit ← of (Bit.test? data i.val)
    lift (branchIf (bit == value))
  | callTable n => do
    lift pushReturn
    let offset ← of (below wordBound (n.val * 2))
    let addr ← lift (readWord (SoundUnit.callTable - UInt16.ofNat offset))
    lift (jumpTo addr)
    return 0
  | i => lift i.execute

def baseClocks? (opcode : UInt8) : Option Nat := do
  let row ← OpcodeMatrix.clockRows[opcode.toNat / 16]?
  row[opcode.toNat % 16]?

theorem toNat_shiftRight_thirteen (w : UInt16) : (w >>> 13).toNat = (Fin.ofNat 8 (w >>> 13).toNat).val := by
  have h : (w >>> 13).toNat = w.toNat / 8192 := by
    rw [UInt16.toNat_shiftRight]
    exact Nat.shiftRight_eq_div_pow ..
  have hw := w.toNat_lt
  change _ = (w >>> 13).toNat % 8
  omega

theorem callTable_offset (n : Fin 16) : UInt16.ofNat (n.val * 2) = 2 * n.val.toUInt16 := by
  revert n
  decide

theorem execute?_eq (i : Instruction) : i.execute? = lift i.execute := by
  cases i with
  | binary op target source =>
    simp only [execute?, execute, lift_bind, withStatus?_eq (op.evaluate?_eq _ _)]
    rfl
  | wide op =>
    simp only [execute?, execute, lift_bind, withStatus?_eq (op.evaluate?_eq _ _)]
    rfl
  | multiply =>
    simp only [execute?, execute, lift_bind, withStatus?_eq (Arithmetic.multiply?_eq _ _)]
    rfl
  | divide =>
    simp only [execute?, Arithmetic.divide?_eq]
    rfl
  | assignBit i value =>
    simp only [execute?, execute, lift_bind, Bit.assign?_eq]
    rfl
  | carryBit op =>
    simp only [execute?, execute, bitAddress, lift_bind, lift_pure, bind_assoc, pure_bind]
    refine bind_congr fun w ↦ bind_congr fun data ↦ ?_
    have hi := toNat_shiftRight_thirteen w
    generalize Fin.ofNat 8 (w >>> 13).toNat = i at hi
    rw [hi, Bit.test?_eq]
    rfl
  | complementBit =>
    simp only [execute?, execute, bitAddress, lift_bind, lift_pure, bind_assoc, pure_bind]
    refine bind_congr fun w ↦ bind_congr fun data ↦ ?_
    have hi := toNat_shiftRight_thirteen w
    generalize Fin.ofNat 8 (w >>> 13).toNat = i at hi
    rw [hi, Bit.mask?_eq]
    rfl
  | storeCarry =>
    simp only [execute?, execute, bitAddress, lift_bind, lift_pure, bind_assoc, pure_bind]
    refine bind_congr fun w ↦ bind_congr fun data ↦ bind_congr fun r ↦ ?_
    have hi := toNat_shiftRight_thirteen w
    generalize Fin.ofNat 8 (w >>> 13).toNat = i at hi
    rw [hi, Bit.assign?_eq]
    rfl
  | branchBit i value =>
    simp only [execute?, execute, lift_bind, Bit.test?_eq]
    rfl
  | callTable n =>
    have hn : n.val * 2 < wordBound := by
      unfold wordBound
      omega
    simp only [execute?, execute, lift_bind, below_of hn, of_some_bind, callTable_offset]
    rfl
  | _ => rfl

theorem baseClocks?_eq (opcode : UInt8) : baseClocks? opcode = some (baseClocks opcode) := by
  have hlt := opcode.toNat_lt
  have hq : opcode.toNat / 16 % 16 = opcode.toNat / 16 := Nat.mod_eq_of_lt (by omega)
  have hr : opcode.toNat % 16 < 16 := Nat.mod_lt _ (by decide)
  unfold baseClocks?
  rw [← hq, Vector.getElem?_eq_getElem (Nat.mod_lt _ (by decide)), Option.bind_eq_bind, Option.bind_some]
  exact Vector.getElem?_eq_getElem hr

end Instruction

def Attempt.instruction : Attempt Nat := do
  let opcode ← lift Exec.fetch
  let clocks ← of (Instruction.baseClocks? opcode)
  let extra ← (Instruction.ofOpcode opcode).execute?
  of (below sizeBound (clocks + extra))

theorem Attempt.instruction_eq : instruction = lift Exec.instruction := by
  unfold instruction Exec.instruction
  rw [lift_bind]
  refine bind_congr fun opcode ↦ ?_
  rw [Instruction.baseClocks?_eq, of_some_bind, Instruction.execute?_eq]
  refine lift_bind_congr (Instruction.execute_atMost _) fun extra hx ↦ ?_
  have hle := Instruction.baseClocks_add_extra_le opcode
  rw [below_of (by unfold sizeBound; unfold Core.maxStepClocks at hle; omega)]
  rfl

end SoundUnit
