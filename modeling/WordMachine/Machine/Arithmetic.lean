-- The arithmetic of the machine on words.
import WordMachine.Instruction.Opcode

namespace WordMachine

/-- The result of an operation. Shifts by sixteen or more leave nothing. The
machine never takes a remainder by zero. -/
def Arith.apply : Arith → UInt16 → UInt16 → UInt16
  | add, x, y => x + y
  | sub, x, y => x - y
  | mul, x, y => x * y
  | mod, x, y => x % y
  | and, x, y => x &&& y
  | or, x, y => x ||| y
  | xor, x, y => x ^^^ y
  | shl, x, y => if y < 16 then x <<< y else 0
  | shr, x, y => if y < 16 then x >>> y else 0

/-- A shift to the right that fills up with the sign. Every shift by more than
fifteen is one by fifteen. -/
def shiftRightSigned (x y : UInt16) : UInt16 :=
  (x.toInt16 >>> (if y < 15 then y else 15).toInt16).toUInt16

/-- A comparison holds between two words. -/
def Comparison.holds : Comparison → UInt16 → UInt16 → Bool
  | less, x, y => x.toInt16 < y.toInt16
  | lessEq, x, y => x.toInt16 ≤ y.toInt16
  | greater, x, y => y.toInt16 < x.toInt16
  | greaterEq, x, y => y.toInt16 ≤ x.toInt16
  | below, x, y => x < y
  | belowEq, x, y => x ≤ y
  | above, x, y => y < x
  | aboveEq, x, y => y ≤ x
  | equal, x, y => x = y
  | notEqual, x, y => x ≠ y

/-- A test holds of a word. -/
def ZeroTest.holds : ZeroTest → UInt16 → Bool
  | equal, x => x.toInt16 = 0
  | less, x => x.toInt16 < 0
  | lessEq, x => x.toInt16 ≤ 0
  | greater, x => 0 < x.toInt16
  | greaterEq, x => 0 ≤ x.toInt16

end WordMachine
