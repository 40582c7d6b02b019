-- Compilation: the image of a program.
import WordMachine.Image.Layout

namespace WordMachine

/-- Why a program has no image. -/
inductive CompileError
  /-- The label is defined nowhere. -/
  | unresolvedLabel (name : String) (location : Location)
  | invalidOperands (mismatch : ShapeMismatch) (location : Location)
  /-- The program does not fit in the address space. -/
  | programTooLarge (size : Nat)
  /-- The offset of the word for an address is too large for a word. The compiler breaks
  down over it before it has looked at the operands. -/
  | siteOverflow (start : Nat)
  deriving DecidableEq, Repr

namespace CompileError

/-- The place of the error. -/
def location? : CompileError → Option Location
  | unresolvedLabel _ location | invalidOperands _ location => some location
  | programTooLarge _ | siteOverflow _ => none

/-- The error is a report on the program, and not a breakdown of the compiler. -/
def isReport : CompileError → Bool
  | unresolvedLabel _ _ | invalidOperands _ _ | programTooLarge _ => true
  | siteOverflow _ => false

/-- The text of the error. -/
def message : CompileError → String
  | unresolvedLabel name location => s!"undefined label '{name}' referenced at {location.text}"
  | invalidOperands mismatch location => s!"{mismatch.message} at {location.text}"
  | programTooLarge size =>
    s!"program is {size} bytes, which exceeds the {addressSpace} byte address space"
  | siteOverflow _ => "attempt to add with overflow"

end CompileError

/-! ## Encoding nodes -/

/-- The value of an immediate of the instruction at `start`, given the addresses of the
labels. The word for an address stands two bytes behind `start`. -/
def Immediate.resolve (defines : LabelMap UInt16) (start : Nat) :
    Immediate → Except CompileError UInt16
  | constant value => .ok value
  | label name location =>
    match defines[name]? with
    | some address => if start + 2 < addressSpace then .ok address else .error (.siteOverflow start)
    | none => .error (.unresolvedLabel name location)

/-- The bytes of an instruction at `start`, given the addresses of the labels. -/
def Instruction.encode (defines : LabelMap UInt16) (start : Nat) (location : Location)
    (i : Instruction Immediate) : Except CompileError Bytes :=
  match i.immediate.mapM (Immediate.resolve defines start) with
  | .error e => .error e
  | .ok imm =>
    match (⟨i.opcode, i.a, i.b, imm⟩ : Instruction UInt16).check with
    | .error e => .error (.invalidOperands e location)
    | .ok i => .ok i.toBytes

/-- The bytes of a node, given the addresses of the labels. -/
def Placed.encode (defines : LabelMap UInt16) (q : Placed) : Except CompileError Bytes :=
  match q.node.content with
  | .binary bytes => .ok bytes
  | .instruction i => i.encode defines q.start q.node.location

/-! ## Programs -/

namespace Program

/-- Checks that every label has an address and that all bytes do. -/
def checkSize (p : Program) : Except CompileError Unit :=
  match (Placed.row p.nodes).find? fun q => q.node.label.isSome && addressSpace ≤ q.start with
  | some q => .error (.programTooLarge q.start)
  | none => if addressSpace < p.byteLength then .error (.programTooLarge p.byteLength) else .ok ()

/-- The image of a program, to be loaded at address zero. -/
def compile (p : Program) : Except CompileError Image := do
  p.checkSize
  let chunks ← (Placed.row p.nodes).mapM (Placed.encode p.defines)
  return {
    bytes := chunks.flatten
    defines := p.defines
    references := LabelMap.groups p.fixups
    relocations := .ofList (p.fixups.map (·.2))
    sourceMap := p.sourceMap }

end Program

end WordMachine
