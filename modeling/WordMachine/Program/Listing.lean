-- Programs as source text.
import WordMachine.Program.Node
import WordMachine.Source.Literal

namespace WordMachine

/-- A content as a statement. Bytes become a string; no bytes become no text. -/
def Content.listing : Content → String
  | binary [] => ""
  | binary bytes => "    " ++ Instruction.column "PUT" ("\"" ++ Literal.write bytes ++ "\"")
  | instruction i => "    " ++ i.text Immediate.text

/-- A node as source text. The label stands on a line of its own. -/
def Node.listing (n : Node) : String :=
  (match n.label with
    | some l => l.name ++ ":\n"
    | none => "") ++ n.content.listing

/-- A program as source text. -/
def Program.listing (p : Program) : String :=
  (match p.name with
    | some name => "NAME \"" ++ name ++ "\"\n"
    | none => "") ++ String.join (p.nodes.map fun n => n.listing ++ "\n")

end WordMachine
