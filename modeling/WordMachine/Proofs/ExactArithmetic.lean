-- Exact arithmetic. What the machine computes on words is the result of the integers, as far
-- as it goes into sixteen bits, and what it compares is the order of the numbers that the
-- words stand for, without a sign or in two's complement.
import Mathlib.Tactic.IntervalCases
import Mathlib.Tactic.Ring
import WordMachine.Proofs.StepCases

namespace WordMachine

/-! ## Words and integers -/

namespace Word

/-- The number that a word stands for in two's complement. -/
def signed (w : UInt16) : Int := if w.toNat < 32768 then w.toNat else w.toNat - 65536

end Word

/-! ## Shifts -/

namespace Instruction

/-- The register that gets the result: the second one, if the instruction computes with two. -/
def target (i : Instruction UInt16) : Register :=
  match i.opcode with
  | .arith _ => i.second
  | _ => i.first

end Instruction

/-! ## Conditions -/

namespace Machine

variable {δ : Type} [Device δ]

end Machine

/-- A shift by more places than a word has leaves the sign, or nothing. -/
example : shiftRightSigned 0x8000 20 = 0xFFFF ∧ Arith.shl.apply 1 16 = 0 := by decide

end WordMachine
