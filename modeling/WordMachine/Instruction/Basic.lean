-- Instructions: an operation and its operands, how they are written and how
-- they are packed into words and bytes.
import WordMachine.Instruction.Opcode
import WordMachine.Instruction.Register
import WordMachine.Text.Basic
import WordMachine.Text.Numeral
import WordMachine.Word

namespace WordMachine

/-- An operation with operands. The type of the immediate is a number in an
encoded program and a number or a label in a source program. The operands
need not be those that the operation takes. -/
structure Instruction (ι : Type) where
  opcode : Opcode
  a : Option Register
  b : Option Register
  immediate : Option ι
  deriving DecidableEq, Repr

/-- The operands given to an operation are not those that it takes. -/
structure ShapeMismatch where
  opcode : Opcode
  deriving DecidableEq, Repr

/-- The text of a shape mismatch. -/
def ShapeMismatch.message (e : ShapeMismatch) : String :=
  s!"operands do not match the {e.opcode.shape.name} shape of {e.opcode.mnemonic}"

namespace Instruction

variable {ι : Type}

/-! ## Operands -/

/-- The operands are exactly those that the operation takes. -/
def Fits (i : Instruction ι) : Prop :=
  i.a.isSome = decide (1 ≤ i.opcode.shape.registers) ∧
  i.b.isSome = decide (2 ≤ i.opcode.shape.registers) ∧
  i.immediate.isSome = i.opcode.shape.takesImmediate

instance (i : Instruction ι) : Decidable i.Fits := by
  unfold Fits
  infer_instance

/-- The instruction, if its operands fit. -/
def check (i : Instruction ι) : Except ShapeMismatch (Instruction ι) :=
  if i.Fits then .ok i else .error ⟨i.opcode⟩

/-! ## Encoding -/

/-- The bytes that the instruction takes when it is encoded. -/
def byteLength (i : Instruction ι) : Nat := i.opcode.byteLength

/-- The number of an operand in the instruction word; zero if it is missing. -/
def nibble (r : Option Register) : UInt16 := (r.map Register.nibble).getD 0

/-- The instruction word: the code of the operation with the registers packed
in. -/
def word (i : Instruction ι) : UInt16 :=
  match i.opcode.shape.registers with
  | 0 => i.opcode.code
  | 1 => i.opcode.code ||| nibble i.a
  | _ => i.opcode.code ||| (nibble i.a <<< 4) ||| nibble i.b

/-- The encoded instruction: its word and, if the operation takes one, its
immediate. -/
def toBytes (i : Instruction UInt16) : Bytes :=
  Word.toBytes i.word ++
    if i.opcode.shape.takesImmediate then Word.toBytes (i.immediate.getD 0) else []

/-! ## Text -/

/-- The operands in the order in which they are written. -/
def operandTexts (immText : ι → String) (i : Instruction ι) : List String :=
  (i.a.toList ++ i.b.toList).map Register.name ++ i.immediate.toList.map immText

/-- A mnemonic and its operands, in columns. -/
def column (mnemonic operands : String) : String :=
  Text.padRight Opcode.mnemonicWidth mnemonic ++ " " ++ operands

/-- The instruction as it is written in source text. -/
def text (immText : ι → String) (i : Instruction ι) : String :=
  match i.operandTexts immText with
  | [] => i.opcode.mnemonic
  | operands => column i.opcode.mnemonic (", ".intercalate operands)

/-- A word as it is written as an immediate. -/
def wordText (w : UInt16) : String := "0x" ++ Text.hexWord w

end Instruction

end WordMachine
