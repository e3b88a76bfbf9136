import SoundUnit.Processor.Instruction

namespace SoundUnit

namespace OpcodeMatrix

def row0 : Vector Instruction 16 := #v[
  .nop, .callTable 0, .assignBit 0 true, .branchBit 0 true, .binary .or (.register .a) (.held (.memory .direct)),
  .binary .or (.register .a) (.held (.memory .absolute)), .binary .or (.register .a) (.held (.memory .atX)),
  .binary .or (.register .a) (.held (.memory .pointerX)), .binary .or (.register .a) .immediate,
  .binary .or (.memory .direct) (.held (.memory .direct)), .carryBit (.or false),
  .unary .shiftLeft (.memory .direct), .unary .shiftLeft (.memory .absolute), .push .status, .assignMask true,
  .trap]

def row1 : Vector Instruction 16 := #v[
  .branch .negative false, .callTable 1, .assignBit 0 false, .branchBit 0 false,
  .binary .or (.register .a) (.held (.memory .directX)), .binary .or (.register .a) (.held (.memory .absoluteX)),
  .binary .or (.register .a) (.held (.memory .absoluteY)), .binary .or (.register .a) (.held (.memory .pointerY)),
  .binary .or (.memory .direct) .immediate, .binary .or (.memory .atX) (.held (.memory .atY)), .decrementWide,
  .unary .shiftLeft (.memory .directX), .unary .shiftLeft (.register .a), .unary .decrement (.register .x),
  .binary .compare (.register .x) (.held (.memory .absolute)), .jumpIndexed]

def row2 : Vector Instruction 16 := #v[
  .switch .directPage false, .callTable 2, .assignBit 1 true, .branchBit 1 true,
  .binary .and (.register .a) (.held (.memory .direct)), .binary .and (.register .a) (.held (.memory .absolute)),
  .binary .and (.register .a) (.held (.memory .atX)), .binary .and (.register .a) (.held (.memory .pointerX)),
  .binary .and (.register .a) .immediate, .binary .and (.memory .direct) (.held (.memory .direct)),
  .carryBit (.or true), .unary .rotateLeft (.memory .direct), .unary .rotateLeft (.memory .absolute),
  .push (.register .a), .branchUnequal .direct, .branchAlways]

def row3 : Vector Instruction 16 := #v[
  .branch .negative true, .callTable 3, .assignBit 1 false, .branchBit 1 false,
  .binary .and (.register .a) (.held (.memory .directX)), .binary .and (.register .a) (.held (.memory .absoluteX)),
  .binary .and (.register .a) (.held (.memory .absoluteY)),
  .binary .and (.register .a) (.held (.memory .pointerY)), .binary .and (.memory .direct) .immediate,
  .binary .and (.memory .atX) (.held (.memory .atY)), .incrementWide, .unary .rotateLeft (.memory .directX),
  .unary .rotateLeft (.register .a), .unary .increment (.register .x),
  .binary .compare (.register .x) (.held (.memory .direct)), .call]

def row4 : Vector Instruction 16 := #v[
  .switch .directPage true, .callTable 4, .assignBit 2 true, .branchBit 2 true,
  .binary .xor (.register .a) (.held (.memory .direct)), .binary .xor (.register .a) (.held (.memory .absolute)),
  .binary .xor (.register .a) (.held (.memory .atX)), .binary .xor (.register .a) (.held (.memory .pointerX)),
  .binary .xor (.register .a) .immediate, .binary .xor (.memory .direct) (.held (.memory .direct)),
  .carryBit (.and false), .unary .shiftRight (.memory .direct), .unary .shiftRight (.memory .absolute),
  .push (.register .x), .assignMask false, .callPage]

def row5 : Vector Instruction 16 := #v[
  .branch .overflow false, .callTable 5, .assignBit 2 false, .branchBit 2 false,
  .binary .xor (.register .a) (.held (.memory .directX)), .binary .xor (.register .a) (.held (.memory .absoluteX)),
  .binary .xor (.register .a) (.held (.memory .absoluteY)),
  .binary .xor (.register .a) (.held (.memory .pointerY)), .binary .xor (.memory .direct) .immediate,
  .binary .xor (.memory .atX) (.held (.memory .atY)), .wide .compare, .unary .shiftRight (.memory .directX),
  .unary .shiftRight (.register .a), .load .x (.held (.register .a)),
  .binary .compare (.register .y) (.held (.memory .absolute)), .jump]

def row6 : Vector Instruction 16 := #v[
  .switch .carry false, .callTable 6, .assignBit 3 true, .branchBit 3 true,
  .binary .compare (.register .a) (.held (.memory .direct)),
  .binary .compare (.register .a) (.held (.memory .absolute)),
  .binary .compare (.register .a) (.held (.memory .atX)),
  .binary .compare (.register .a) (.held (.memory .pointerX)), .binary .compare (.register .a) .immediate,
  .binary .compare (.memory .direct) (.held (.memory .direct)), .carryBit (.and true),
  .unary .rotateRight (.memory .direct), .unary .rotateRight (.memory .absolute), .push (.register .y),
  .countDirect, .ret]

def row7 : Vector Instruction 16 := #v[
  .branch .overflow true, .callTable 7, .assignBit 3 false, .branchBit 3 false,
  .binary .compare (.register .a) (.held (.memory .directX)),
  .binary .compare (.register .a) (.held (.memory .absoluteX)),
  .binary .compare (.register .a) (.held (.memory .absoluteY)),
  .binary .compare (.register .a) (.held (.memory .pointerY)), .binary .compare (.memory .direct) .immediate,
  .binary .compare (.memory .atX) (.held (.memory .atY)), .wide .add, .unary .rotateRight (.memory .directX),
  .unary .rotateRight (.register .a), .load .a (.held (.register .x)),
  .binary .compare (.register .y) (.held (.memory .direct)), .retTrap]

def row8 : Vector Instruction 16 := #v[
  .switch .carry true, .callTable 8, .assignBit 4 true, .branchBit 4 true,
  .binary .add (.register .a) (.held (.memory .direct)), .binary .add (.register .a) (.held (.memory .absolute)),
  .binary .add (.register .a) (.held (.memory .atX)), .binary .add (.register .a) (.held (.memory .pointerX)),
  .binary .add (.register .a) .immediate, .binary .add (.memory .direct) (.held (.memory .direct)),
  .carryBit .xor, .unary .decrement (.memory .direct), .unary .decrement (.memory .absolute),
  .load .y .immediate, .pop .status, .storeImmediate]

def row9 : Vector Instruction 16 := #v[
  .branch .carry false, .callTable 9, .assignBit 4 false, .branchBit 4 false,
  .binary .add (.register .a) (.held (.memory .directX)), .binary .add (.register .a) (.held (.memory .absoluteX)),
  .binary .add (.register .a) (.held (.memory .absoluteY)),
  .binary .add (.register .a) (.held (.memory .pointerY)), .binary .add (.memory .direct) .immediate,
  .binary .add (.memory .atX) (.held (.memory .atY)), .wide .subtract, .unary .decrement (.memory .directX),
  .unary .decrement (.register .a), .loadStackPointer, .divide, .swapNybbles]

def rowA : Vector Instruction 16 := #v[
  .switch .interrupt true, .callTable 10, .assignBit 5 true, .branchBit 5 true,
  .binary .subtract (.register .a) (.held (.memory .direct)),
  .binary .subtract (.register .a) (.held (.memory .absolute)),
  .binary .subtract (.register .a) (.held (.memory .atX)),
  .binary .subtract (.register .a) (.held (.memory .pointerX)), .binary .subtract (.register .a) .immediate,
  .binary .subtract (.memory .direct) (.held (.memory .direct)), .carryBit .load,
  .unary .increment (.memory .direct), .unary .increment (.memory .absolute),
  .binary .compare (.register .y) .immediate, .pop (.register .a), .storeAdvance]

def rowB : Vector Instruction 16 := #v[
  .branch .carry true, .callTable 11, .assignBit 5 false, .branchBit 5 false,
  .binary .subtract (.register .a) (.held (.memory .directX)),
  .binary .subtract (.register .a) (.held (.memory .absoluteX)),
  .binary .subtract (.register .a) (.held (.memory .absoluteY)),
  .binary .subtract (.register .a) (.held (.memory .pointerY)), .binary .subtract (.memory .direct) .immediate,
  .binary .subtract (.memory .atX) (.held (.memory .atY)), .loadWide, .unary .increment (.memory .directX),
  .unary .increment (.register .a), .setStackPointer, .decimalAdjustSubtract, .loadAdvance]

def rowC : Vector Instruction 16 := #v[
  .switch .interrupt false, .callTable 12, .assignBit 6 true, .branchBit 6 true, .store .direct .a,
  .store .absolute .a, .store .atX .a, .store .pointerX .a, .binary .compare (.register .x) .immediate,
  .store .absolute .x, .storeCarry, .store .direct .y, .store .absolute .y, .load .x .immediate,
  .pop (.register .x), .multiply]

def rowD : Vector Instruction 16 := #v[
  .branch .zero false, .callTable 13, .assignBit 6 false, .branchBit 6 false, .store .directX .a,
  .store .absoluteX .a, .store .absoluteY .a, .store .pointerY .a, .store .direct .x, .store .directY .x,
  .storeWide, .store .directX .y, .unary .decrement (.register .y), .load .a (.held (.register .y)),
  .branchUnequal .directX, .decimalAdjustAdd]

def rowE : Vector Instruction 16 := #v[
  .clearOverflow, .callTable 14, .assignBit 7 true, .branchBit 7 true, .load .a (.held (.memory .direct)),
  .load .a (.held (.memory .absolute)), .load .a (.held (.memory .atX)), .load .a (.held (.memory .pointerX)),
  .load .a .immediate, .load .x (.held (.memory .absolute)), .complementBit, .load .y (.held (.memory .direct)),
  .load .y (.held (.memory .absolute)), .complementCarry, .pop (.register .y), .halt]

def rowF : Vector Instruction 16 := #v[
  .branch .zero true, .callTable 15, .assignBit 7 false, .branchBit 7 false, .load .a (.held (.memory .directX)),
  .load .a (.held (.memory .absoluteX)), .load .a (.held (.memory .absoluteY)), .load .a (.held (.memory .pointerY)),
  .load .x (.held (.memory .direct)), .load .x (.held (.memory .directY)), .copyDirect,
  .load .y (.held (.memory .directX)), .unary .increment (.register .y), .load .y (.held (.register .a)), .countY,
  .halt]

def rows : Vector (Vector Instruction 16) 16 := #v[
  row0, row1, row2, row3, row4, row5, row6, row7, row8, row9, rowA, rowB, rowC, rowD, rowE, rowF]

def clocks0 : Vector Nat 16 := #v[2, 8, 4, 5, 3, 4, 3, 6, 2, 6, 5, 4, 5, 4, 6, 8]
def clocks1 : Vector Nat 16 := #v[2, 8, 4, 5, 4, 5, 5, 6, 5, 5, 6, 5, 2, 2, 4, 6]
def clocks2 : Vector Nat 16 := #v[2, 8, 4, 5, 3, 4, 3, 6, 2, 6, 5, 4, 5, 4, 5, 4]
def clocks3 : Vector Nat 16 := #v[2, 8, 4, 5, 4, 5, 5, 6, 5, 5, 6, 5, 2, 2, 3, 8]
def clocks4 : Vector Nat 16 := #v[2, 8, 4, 5, 3, 4, 3, 6, 2, 6, 4, 4, 5, 4, 6, 6]
def clocks5 : Vector Nat 16 := #v[2, 8, 4, 5, 4, 5, 5, 6, 5, 5, 4, 5, 2, 2, 4, 3]
def clocks6 : Vector Nat 16 := #v[2, 8, 4, 5, 3, 4, 3, 6, 2, 6, 4, 4, 5, 4, 5, 5]
def clocks7 : Vector Nat 16 := #v[2, 8, 4, 5, 4, 5, 5, 6, 5, 5, 5, 5, 2, 2, 3, 6]
def clocks8 : Vector Nat 16 := #v[2, 8, 4, 5, 3, 4, 3, 6, 2, 6, 5, 4, 5, 2, 4, 5]
def clocks9 : Vector Nat 16 := #v[2, 8, 4, 5, 4, 5, 5, 6, 5, 5, 5, 5, 2, 2, 12, 5]
def clocksA : Vector Nat 16 := #v[3, 8, 4, 5, 3, 4, 3, 6, 2, 6, 4, 4, 5, 2, 4, 4]
def clocksB : Vector Nat 16 := #v[2, 8, 4, 5, 4, 5, 5, 6, 5, 5, 5, 5, 2, 2, 3, 4]
def clocksC : Vector Nat 16 := #v[3, 8, 4, 5, 4, 5, 4, 7, 2, 5, 6, 4, 5, 2, 4, 9]
def clocksD : Vector Nat 16 := #v[2, 8, 4, 5, 5, 6, 6, 7, 4, 5, 5, 5, 2, 2, 6, 3]
def clocksE : Vector Nat 16 := #v[2, 8, 4, 5, 3, 4, 3, 6, 2, 4, 5, 3, 4, 3, 4, 3]
def clocksF : Vector Nat 16 := #v[2, 8, 4, 5, 4, 5, 5, 6, 3, 4, 5, 4, 2, 2, 4, 3]

/-- Clocks of each instruction; a branch is listed as not taken. -/
def clockRows : Vector (Vector Nat 16) 16 := #v[
  clocks0, clocks1, clocks2, clocks3, clocks4, clocks5, clocks6, clocks7, clocks8, clocks9, clocksA, clocksB,
  clocksC, clocksD, clocksE, clocksF]

/-- The entry in the row of the high nybble and the column of the low one. -/
def entry {α : Type} (matrix : Vector (Vector α 16) 16) (opcode : UInt8) : α :=
  (matrix.get (Fin.ofNat 16 (opcode.toNat / 16))).get (Fin.ofNat 16 opcode.toNat)

theorem two_le_clocks : ∀ i j : Fin 16, 2 ≤ (clockRows.get i).get j := by decide +kernel

end OpcodeMatrix

namespace Instruction

def ofOpcode (opcode : UInt8) : Instruction := OpcodeMatrix.entry OpcodeMatrix.rows opcode

/-- The clocks that the instruction takes when it does not branch. -/
def baseClocks (opcode : UInt8) : Nat := OpcodeMatrix.entry OpcodeMatrix.clockRows opcode

def branchClocks : Nat := 2

theorem two_le_baseClocks (opcode : UInt8) : 2 ≤ baseClocks opcode := OpcodeMatrix.two_le_clocks _ _

end Instruction

end SoundUnit
