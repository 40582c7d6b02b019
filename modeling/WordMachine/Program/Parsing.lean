-- Parsing: the program that the tokens of a source text stand for. A line
-- holds an optional label and an optional statement. A label belongs to the
-- next content, also on a later line; a label that another one follows, or
-- the end, gets a node of its own.
import WordMachine.Program.Line

namespace WordMachine

/-- A program in the making: what has been read so far. -/
structure Draft where
  name : Option String
  /-- The nodes, the last one first. -/
  nodes : List Node
  labels : LabelMap Location
  /-- The label that waits for a content. -/
  pending : Option Label

namespace Draft

/-- The draft before the first line. -/
def empty : Draft := ⟨none, [], ∅, none⟩

/-- The draft with a node of its own for the label that waits. -/
def anchored (d : Draft) : Draft :=
  match d.pending with
  | none => d
  | some l => { d with nodes := .anchor l :: d.nodes, pending := none }

/-- The draft with a new label, which waits from now on. -/
def define (d : Draft) (l : Label) : Except SyntaxError Draft :=
  match d.labels[l.name]? with
  | some previous => .error ⟨.duplicateLabel l.name previous, l.location⟩
  | none => .ok { d.anchored with labels := d.labels.insert l.name l.location, pending := some l }

/-- The draft with one more content, to which the label that waits belongs. -/
def add (d : Draft) (content : Content) (location : Location) : Draft :=
  { d with nodes := ⟨content, d.pending, location⟩ :: d.nodes, pending := none }

/-- The draft with the name of the document, which can be given only once. -/
def setName (d : Draft) (name : String) (location : Location) : Except SyntaxError Draft :=
  match d.name with
  | some _ => .error ⟨.duplicateName, location⟩
  | none => .ok { d with name := some name }

/-- The draft after the statement of a line, of which `ts` are the tokens. -/
def statement (d : Draft) (line : Line) (ts : List Token) : Except SyntaxError Draft :=
  match ts with
  | [] => .ok d
  | t :: ts =>
    match t.value with
    | .opcode op => do
      let (i, rest) ← line.instruction op ts
      Line.nothingLeft rest
      return d.add (.instruction i) t.location
    | .directive .name => do
      let (name, rest) ← line.documentName ts
      let d ← d.setName name t.location
      Line.nothingLeft rest
      return d
    | .directive .put => do
      let (bytes, rest) ← line.bytes ts
      Line.nothingLeft rest
      return d.add (.binary bytes) t.location
    | .identifier name => .error ⟨.unknownMnemonic name (Line.suggestion? name), t.location⟩
    | _ => .error (.unexpected [.opcode, .directive] t)

/-- The draft after one more line. -/
def line (d : Draft) (l : Line) : Except SyntaxError Draft :=
  match Line.label? l.tokens with
  | some (label, ts) => do
    let d ← d.define label
    d.statement l ts
  | none => d.statement l l.tokens

/-- The program, when there are no more lines. -/
def finish (d : Draft) : Program := ⟨d.name, d.anchored.nodes.reverse, d.labels⟩

end Draft

namespace Program

/-- The program of a row of tokens. -/
def parse (ts : List Token) : Except SyntaxError Program :=
  if ts.isEmpty then .error ⟨.noTokens, .start⟩
  else ((Line.split ts).foldlM Draft.line .empty).map Draft.finish

end Program

end WordMachine
