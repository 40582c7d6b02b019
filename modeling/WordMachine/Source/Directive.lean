-- The directives of the assembler.
import WordMachine.Text.Upper

namespace WordMachine

/-- A statement that is no instruction. -/
inductive Directive
  /-- Names the document. -/
  | name
  /-- Places bytes in the output. -/
  | put
  deriving DecidableEq, Repr

namespace Directive

/-- Every directive. -/
def all : List Directive := [name, put]

/-- The word that a directive starts with. -/
def word : Directive → String
  | name => "NAME"
  | put => "PUT"

/-- The directive with a word. Upper and lower case are the same. -/
def ofWord? (s : String) : Option Directive :=
  let upper := Text.upperCase s
  all.find? (·.word == upper)

end Directive

end WordMachine
