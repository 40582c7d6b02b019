-- Layout: where the nodes of a program come to stand.
import WordMachine.Image.Basic
import WordMachine.Program.Node

namespace WordMachine

/-- The number of bytes that nodes take together. -/
def Node.span (nodes : List Node) : Nat := nodes.foldr (fun n size => n.byteLength + size) 0

/-- A node and the offset of its first byte. -/
structure Placed where
  start : Nat
  node : Node
  deriving DecidableEq, Repr

namespace Placed

/-- Places nodes one behind the other. `done` holds the nodes placed so far,
the last one first. -/
def rowFrom (done : List Placed) (start : Nat) : List Node → List Placed
  | [] => done.reverse
  | n :: ns => rowFrom (⟨start, n⟩ :: done) (start + n.byteLength) ns

/-- The nodes, placed one behind the other from offset zero on. -/
def row (nodes : List Node) : List Placed := rowFrom [] 0 nodes

/-- The label of a node with its address. -/
def define? (p : Placed) : Option (String × UInt16) :=
  p.node.label.map fun l => (l.name, UInt16.ofNat p.start)

/-- The label that the node uses as its immediate. -/
def usedLabel? (p : Placed) : Option String :=
  match p.node.content with
  | .instruction ⟨_, _, _, some (.label name _)⟩ => some name
  | _ => none

/-- The offset of the immediate, which follows the instruction word. -/
def site (p : Placed) : UInt16 := UInt16.ofNat (p.start + 2)

/-- The label that the node uses, and the offset of the word for its address. -/
def fixup? (p : Placed) : Option (String × UInt16) :=
  p.usedLabel?.map fun name => (name, p.site)

end Placed

namespace Program

/-- The number of bytes that the nodes take together. -/
def byteLength (p : Program) : Nat := Node.span p.nodes

/-- The addresses of the labels. -/
def defines (p : Program) : LabelMap UInt16 :=
  .ofList ((Placed.row p.nodes).filterMap Placed.define?)

/-- The uses of labels, in the order of their offsets. -/
def fixups (p : Program) : List (String × UInt16) :=
  (Placed.row p.nodes).filterMap Placed.fixup?

/-- The places of the nodes by offset. Of the nodes at one offset the last one
counts, and a node behind the last address has no offset. -/
def sourceMap (p : Program) : AddressMap Location :=
  .ofList (((Placed.row p.nodes).filter (·.start < addressSpace)).map fun q =>
    (q.start, q.node.location))

end Program

/-- The offsets of the uses, grouped by label. -/
def LabelMap.groups (uses : List (String × UInt16)) : LabelMap (List UInt16) :=
  uses.foldr (fun u m => m.alter u.1 fun offsets => some (u.2 :: offsets.getD [])) ∅

end WordMachine
