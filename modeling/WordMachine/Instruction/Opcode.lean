-- The operations of the machine: their mnemonics, the operands they take and
-- the patterns of their instruction words.
import WordMachine.Text.Upper

namespace WordMachine

/-! ## Shapes -/

/-- Which operands an operation takes: how many registers, and whether an
immediate word follows the instruction word. -/
inductive Shape
  | none | reg | immed | regReg | regImmed | regRegImmed
  deriving DecidableEq, Repr

namespace Shape

/-- The registers packed into the instruction word. -/
def registers : Shape → Nat
  | none | immed => 0
  | reg | regImmed => 1
  | regReg | regRegImmed => 2

/-- An immediate word follows the instruction word. -/
def takesImmediate : Shape → Bool
  | immed | regImmed | regRegImmed => true
  | none | reg | regReg => false

/-- The bytes of an encoded instruction. -/
def byteLength (s : Shape) : Nat := if s.takesImmediate then 4 else 2

/-- The name of a shape in messages. -/
def name : Shape → String
  | none => "None"
  | reg => "Reg"
  | immed => "Immed"
  | regReg => "RegReg"
  | regImmed => "RegImmed"
  | regRegImmed => "RegRegImmed"

end Shape

/-! ## Families of operations -/

/-- The arithmetic and logic operations with two arguments. -/
inductive Arith
  | add | sub | mul | mod | and | or | xor | shl | shr
  deriving DecidableEq, Repr

namespace Arith

/-- The operations in the order of their selectors. -/
def all : List Arith := [add, sub, mul, mod, and, or, xor, shl, shr]

/-- The part of the instruction word that tells these operations apart. -/
def selector : Arith → UInt16
  | add => 0 | sub => 1 | mul => 2 | mod => 5 | and => 6 | or => 7 | xor => 8 | shl => 9 | shr => 10

/-- The mnemonic of the form with two registers. -/
def mnemonic : Arith → String
  | add => "ADD" | sub => "SUB" | mul => "MUL" | mod => "MOD" | and => "AND"
  | or => "OR" | xor => "XOR" | shl => "SHL" | shr => "SHR"

/-- The mnemonic of the form with a register and an immediate. -/
def mnemonicImm : Arith → String
  | add => "ADDI" | sub => "SUBI" | mul => "MULI" | mod => "MODI" | and => "ANDI"
  | or => "ORI" | xor => "XORI" | shl => "SHLI" | shr => "SHRI"

end Arith

/-- The comparisons of two registers. The first four take them as signed
numbers, the next four as unsigned ones. -/
inductive Comparison
  | less | lessEq | greater | greaterEq | below | belowEq | above | aboveEq | equal | notEqual
  deriving DecidableEq, Repr

namespace Comparison

/-- The comparisons in the order of their selectors. -/
def all : List Comparison :=
  [less, lessEq, greater, greaterEq, below, belowEq, above, aboveEq, equal, notEqual]

/-- The part of the instruction word that tells the comparisons apart. -/
def selector : Comparison → UInt16
  | less => 0 | lessEq => 1 | greater => 2 | greaterEq => 3 | below => 4 | belowEq => 5
  | above => 6 | aboveEq => 7 | equal => 8 | notEqual => 9

/-- The mnemonic of the jump that a comparison guards. -/
def jumpMnemonic : Comparison → String
  | less => "JLT" | lessEq => "JLTE" | greater => "JGT" | greaterEq => "JGTE" | below => "JB"
  | belowEq => "JBE" | above => "JA" | aboveEq => "JAE" | equal => "JEQ" | notEqual => "JNEQ"

/-- The mnemonic of the return that a comparison guards. -/
def retMnemonic : Comparison → String
  | less => "RLT" | lessEq => "RLTE" | greater => "RGT" | greaterEq => "RGTE" | below => "RB"
  | belowEq => "RBE" | above => "RA" | aboveEq => "RAE" | equal => "REQ" | notEqual => "RNEQ"

end Comparison

/-- The tests of a register, taken as a signed number, against zero. -/
inductive ZeroTest
  | equal | less | lessEq | greater | greaterEq
  deriving DecidableEq, Repr

namespace ZeroTest

/-- The tests in the order of their selectors. -/
def all : List ZeroTest := [equal, less, lessEq, greater, greaterEq]

/-- The part of the instruction word that tells the tests apart. -/
def selector : ZeroTest → UInt16
  | equal => 0 | less => 1 | lessEq => 2 | greater => 3 | greaterEq => 4

/-- The mnemonic of the jump that a test guards. -/
def jumpMnemonic : ZeroTest → String
  | equal => "JEZ" | less => "JLZ" | lessEq => "JLEZ" | greater => "JGZ" | greaterEq => "JGEZ"

/-- The mnemonic of the return that a test guards. -/
def retMnemonic : ZeroTest → String
  | equal => "REZ" | less => "RLZ" | lessEq => "RLEZ" | greater => "RGZ" | greaterEq => "RGEZ"

end ZeroTest

/-! ## Operations -/

/-- An operation. Its register operands are called `A` and `B` in the order
in which they are written, and its immediate operand `imm`. -/
inductive Opcode
  /-- Sets `B` to the result of `A` and `B`. -/
  | arith (op : Arith)
  /-- Sets `A` to the result of `A` and `imm`. -/
  | arithImm (op : Arith)
  | inc | dec | not | neg
  /-- Jumps to `imm` when the comparison of `A` and `B` holds. -/
  | jumpIf (c : Comparison)
  /-- Returns when the comparison of `A` and `B` holds. -/
  | retIf (c : Comparison)
  /-- Sets `B` to `A`. -/
  | copy
  /-- Sets `B` to the memory word at `A`. -/
  | load
  /-- Sets the memory word at `B` to `A`. -/
  | store
  /-- Swaps `A` and `B`. -/
  | swap
  /-- Swaps the memory word at `A` and `B`. -/
  | swapMemory
  /-- Sets `B` to the high byte of `A`. -/
  | high
  /-- Sets `B` to the low byte of `A`. -/
  | low
  /-- Sets `A` to the value at port `B`. -/
  | input
  /-- Sets `A` to `imm`. -/
  | copyImm
  /-- Sets `A` to the value at port `imm`. -/
  | inputImm
  /-- Sends `A` to port `imm`. -/
  | outputImm
  /-- Shifts `A` to the left by `imm`. -/
  | shiftLeft
  /-- Shifts `A` to the right by `imm` and keeps the sign. -/
  | shiftRight
  | jumpReg
  /-- Pops what `pushAll` pushed. -/
  | popAll
  /-- Pushes every register but the stack pointer. -/
  | pushAll
  | jump | call | ret | halt
  | enableInterrupts | disableInterrupts
  | callReg | push | pop
  /-- Sends `B` to port `A`. -/
  | output
  /-- Jumps to `imm` when the test of `A` holds. -/
  | jumpIfZero (t : ZeroTest)
  /-- Returns when the test of `A` holds. -/
  | retIfZero (t : ZeroTest)
  | nop
  deriving DecidableEq, Repr

namespace Opcode

/-- Every operation, in the order of the encoding table. -/
def all : List Opcode :=
  Arith.all.map arith ++ Arith.all.map arithImm ++ [inc, dec, not, neg]
    ++ Comparison.all.map jumpIf ++ Comparison.all.map retIf
    ++ [copy, load, store, swap, swapMemory, high, low, input]
    ++ [copyImm, inputImm, outputImm, shiftLeft, shiftRight, jumpReg, popAll, pushAll]
    ++ [jump, call, ret, halt, enableInterrupts, disableInterrupts, callReg, push, pop, output]
    ++ ZeroTest.all.map jumpIfZero ++ ZeroTest.all.map retIfZero ++ [nop]

theorem mem_all (op : Opcode) : op ∈ all := by
  cases op <;> (try rename_i x; cases x) <;> decide

/-- The operands of an operation. -/
def shape : Opcode → Shape
  | arith _ | retIf _ | copy | load | store | swap | swapMemory | high | low | input | output => .regReg
  | arithImm _ | copyImm | inputImm | outputImm | shiftLeft | shiftRight | jumpIfZero _ => .regImmed
  | inc | dec | not | neg | jumpReg | callReg | push | pop | retIfZero _ => .reg
  | jumpIf _ => .regRegImmed
  | jump | call => .immed
  | popAll | pushAll | ret | halt | enableInterrupts | disableInterrupts | nop => .none

/-- The instruction word of an operation with all operand bits clear. -/
def code : Opcode → UInt16
  | arith op => (0xA000 : UInt16) + (op.selector <<< 8)
  | arithImm op => (0xAF00 : UInt16) + (op.selector <<< 4)
  | inc => 0xAFC0
  | dec => 0xAFD0
  | not => 0xAFE0
  | neg => 0xAFF0
  | jumpIf c => (0xB000 : UInt16) + (c.selector <<< 8)
  | retIf c => (0xC400 : UInt16) + (c.selector <<< 8)
  | copy => 0xD000
  | load => 0xD100
  | store => 0xD200
  | swap => 0xD900
  | swapMemory => 0xDA00
  | high => 0xDB00
  | low => 0xDC00
  | input => 0xDD00
  | copyImm => 0xDE00
  | inputImm => 0xDE30
  | outputImm => 0xDE40
  | shiftLeft => 0xDE50
  | shiftRight => 0xDE60
  | jumpReg => 0xDE90
  | popAll => 0xDEA2
  | pushAll => 0xDEA3
  | jump => 0xDEAA
  | call => 0xDEAB
  | ret => 0xDEAC
  | halt => 0xDEAD
  | enableInterrupts => 0xDEAE
  | disableInterrupts => 0xDEAF
  | callReg => 0xDEB0
  | push => 0xDEC0
  | pop => 0xDED0
  | output => 0xDF00
  | jumpIfZero t => (0xFF00 : UInt16) + (t.selector <<< 4)
  | retIfZero t => (0xFFA0 : UInt16) + (t.selector <<< 4)
  | nop => 0xFFF0

/-- The name of an operation in source text. -/
def mnemonic : Opcode → String
  | arith op => op.mnemonic
  | arithImm op => op.mnemonicImm
  | inc => "INC"
  | dec => "DEC"
  | not => "NOT"
  | neg => "NEG"
  | jumpIf c => c.jumpMnemonic
  | retIf c => c.retMnemonic
  | copy => "COPY"
  | load => "LOAD"
  | store => "STOR"
  | swap => "RXR"
  | swapMemory => "RXM"
  | high => "HI"
  | low => "LO"
  | input => "IN"
  | copyImm => "COPYI"
  | inputImm => "INI"
  | outputImm => "OUTI"
  | shiftLeft => "SHAL"
  | shiftRight => "SHAR"
  | jumpReg => "JUMPR"
  | popAll => "POPR"
  | pushAll => "PUSHR"
  | jump => "JUMP"
  | call => "CALL"
  | ret => "RET"
  | halt => "HALT"
  | enableInterrupts => "EI"
  | disableInterrupts => "DI"
  | callReg => "CALLR"
  | push => "PUSH"
  | pop => "POP"
  | output => "OUT"
  | jumpIfZero t => t.jumpMnemonic
  | retIfZero t => t.retMnemonic
  | nop => "NOP"

/-- The bytes of an encoded instruction. -/
def byteLength (op : Opcode) : Nat := op.shape.byteLength

/-- The cycles that an execution costs: one for each word fetched. -/
def cycles (op : Opcode) : Nat := if op.shape.takesImmediate then 2 else 1

/-- The operation with a mnemonic. Upper and lower case are the same. -/
def ofMnemonic? (s : String) : Option Opcode :=
  let upper := Text.upperCase s
  all.find? (·.mnemonic == upper)

/-- The length of the longest mnemonic, which is the width of the mnemonic
column in listings. -/
def mnemonicWidth : Nat := (all.map fun op => op.mnemonic.length).foldl max 0

/-- The operation with the given number of registers whose code is `pattern`. -/
def ofPattern? (registers : Nat) (pattern : UInt16) : Option Opcode :=
  all.find? fun op => op.shape.registers == registers && op.code == pattern

end Opcode

end WordMachine
