-- Lines of tokens, and the statements that stand on them.
import WordMachine.Program.Node
import WordMachine.Program.SyntaxError
import WordMachine.Text.Basic

namespace WordMachine

/-- The tokens of a line, and the token that ends it. Only the last line of
an input may have no end. -/
structure Line where
  tokens : List Token
  stop : Option Token
  deriving DecidableEq, Repr

namespace Line

/-- The lines of a row of tokens. `done` holds the lines so far and `current`
the tokens of the line at hand, both the last one first. -/
def splitFrom (done : List Line) (current : List Token) : List Token → List Line
  | [] => (if current.isEmpty then done else ⟨current.reverse, none⟩ :: done).reverse
  | t :: ts =>
    if t.endsLine then splitFrom (⟨current.reverse, some t⟩ :: done) [] ts
    else splitFrom done (t :: current) ts

/-- The lines of a row of tokens. -/
def split (ts : List Token) : List Line := splitFrom [] [] ts

/-- The place after the tokens: that of the line end, or that behind the last
token of the input. -/
def finish (line : Line) : Location :=
  match line.stop with
  | some t => t.location
  | none => (line.tokens.getLast?.map (·.source.finish)).getD .start

/-- The error for a line that ends too early. -/
def tooShort (line : Line) (expected : List TokenKind) : SyntaxError :=
  match line.stop with
  | some t => .unexpected expected t
  | none => ⟨.unexpectedEnd expected, line.finish⟩

/-! ## Operands

Each reader takes the tokens that are left on the line and returns what it
read and the tokens behind it. -/

/-- A register. -/
def register (line : Line) : List Token → Except SyntaxError (Register × List Token)
  | [] => .error (line.tooShort [.register])
  | t :: ts =>
    match t.value with
    | .register r => .ok (r, ts)
    | _ => .error (.unexpected [.register] t)

/-- A comma. -/
def comma (line : Line) : List Token → Except SyntaxError (List Token)
  | [] => .error (line.tooShort [.punctuation .comma])
  | t :: ts =>
    if t.value = .punctuation .comma then .ok ts
    else .error (.unexpected [.punctuation .comma] t)

/-- A number as a word. -/
def word (value : Nat) (location : Location) : Except SyntaxError UInt16 :=
  if value < UInt16.size then .ok (UInt16.ofNat value) else .error ⟨.numberTooLarge value, location⟩

/-- An immediate: all that is left of the line, which must be one number or
one label. -/
def immediate (line : Line) (ts : List Token) : Except SyntaxError Immediate :=
  let start := (ts.head?.map Token.location).getD line.finish
  match ts with
  | [t] =>
    match t.value with
    | .number value => (word value t.location).map .constant
    | .identifier name => .ok (.label name t.location)
    | _ => .error ⟨.invalidImmediate 1, start⟩
  | _ => .error ⟨.invalidImmediate ts.length, start⟩

/-- The registers that an operation takes, with commas between them. -/
def registers (line : Line) (count : Nat) (ts : List Token) :
    Except SyntaxError ((Option Register × Option Register) × List Token) :=
  match count with
  | 0 => .ok ((none, none), ts)
  | 1 => do
    let (first, ts) ← line.register ts
    return ((some first, none), ts)
  | _ => do
    let (first, ts) ← line.register ts
    let ts ← line.comma ts
    let (second, ts) ← line.register ts
    return ((some first, some second), ts)

/-- An operation with the operands that it takes. -/
def instruction (line : Line) (op : Opcode) (ts : List Token) :
    Except SyntaxError (Instruction Immediate × List Token) := do
  let ((first, second), ts) ← line.registers op.shape.registers ts
  if op.shape.takesImmediate then
    let ts ← if op.shape.registers = 0 then pure ts else line.comma ts
    let imm ← line.immediate ts
    return (⟨op, first, second, some imm⟩, [])
  else
    return (⟨op, first, second, none⟩, ts)

/-- The name that a document is given. -/
def documentName (line : Line) : List Token → Except SyntaxError (String × List Token)
  | [] => .error (line.tooShort [.string])
  | t :: ts =>
    match t.value with
    | .string s => .ok (s, ts)
    | _ => .error (.unexpected [.string] t)

/-- The bytes to place in the output: those of a string or of a word. -/
def bytes (line : Line) : List Token → Except SyntaxError (Bytes × List Token)
  | [] => .error (line.tooShort [.string, .number])
  | t :: ts =>
    match t.value with
    | .string s =>
      match Literal.read s with
      | .ok bytes => .ok (bytes, ts)
      | .error e => .error ⟨.invalidEscape e, t.location⟩
    | .number value => (word value t.location).map fun w => (Word.toBytes w, ts)
    | _ => .error (.unexpected [.string, .number] t)

/-! ## Labels and line ends -/

/-- The label at the start of a line, and the tokens behind it. -/
def label? : List Token → Option (Label × List Token)
  | t :: u :: ts =>
    match t.value with
    | .identifier name =>
      if u.value = .punctuation .colon then some (⟨name, t.location⟩, ts) else none
    | _ => none
  | _ => none

/-- Nothing is left on the line. -/
def nothingLeft : List Token → Except SyntaxError Unit
  | [] => .ok ()
  | t :: _ => .error (.unexpected [.endOfLine] t)

/-! ## Suggestions -/

/-- The words that a statement can start with. -/
def statementWords : List String := Opcode.all.map Opcode.mnemonic ++ Directive.all.map Directive.word

/-- The first of the words with the smallest distance, if it is close enough
for a slip of the pen. -/
def suggestion? (name : String) : Option String :=
  let upper := (Text.upperCase name).toList
  let near := (statementWords.map fun w => (Text.editDistance upper w.toList, w)).filter (·.1 ≤ 2)
  (near.foldl (fun best x => match best with
    | some y => if x.1 < y.1 then some x else best
    | none => some x) none).map (·.2)

end Line

end WordMachine
