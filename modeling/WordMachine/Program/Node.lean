-- Programs: the nodes that the statements of a source text stand for.
import WordMachine.Instruction.Basic
import WordMachine.Labels
import WordMachine.Source.Location

namespace WordMachine

/-- The immediate of an instruction in a program. -/
inductive Immediate
  | constant (value : UInt16)
  /-- The address of a label, and the place where the label is used. -/
  | label (name : String) (location : Location)
  deriving DecidableEq, Repr

/-- An immediate as it is written in source text. -/
def Immediate.text : Immediate → String
  | constant value => Instruction.wordText value
  | label name _ => name

/-- A label and the place where it is defined. -/
structure Label where
  name : String
  location : Location
  deriving DecidableEq, Repr

/-- What a node puts into the output. -/
inductive Content
  | binary (bytes : Bytes)
  | instruction (i : Instruction Immediate)
  deriving DecidableEq, Repr

/-- The number of bytes that a content takes in the output. -/
def Content.byteLength : Content → Nat
  | binary bytes => bytes.length
  | instruction i => i.byteLength

/-- A content, the place of its statement, and the label attached to it. -/
structure Node where
  content : Content
  label : Option Label
  location : Location
  deriving DecidableEq, Repr

namespace Node

/-- The number of bytes that a node takes in the output. -/
def byteLength (n : Node) : Nat := n.content.byteLength

/-- A label that stands alone, for the address of whatever follows. -/
def anchor (l : Label) : Node := ⟨.binary [], some l, l.location⟩

end Node

/-- A parsed document. -/
structure Program where
  name : Option String
  nodes : List Node
  /-- Where the labels are defined. -/
  labels : LabelMap Location

namespace Program

/-- The labels of a row of nodes. Of two with one name, the later one counts. -/
def labelMap (nodes : List Node) : LabelMap Location :=
  .ofList ((nodes.filterMap (·.label)).map fun l => (l.name, l.location))

/-- The program with the given nodes and no name. -/
def ofNodes (nodes : List Node) : Program := ⟨none, nodes, labelMap nodes⟩

end Program

end WordMachine
