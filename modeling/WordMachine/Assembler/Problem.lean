-- Problems of any stage, from the source text to the running machine.
import WordMachine.Image.Compilation
import WordMachine.Machine.Execution
import WordMachine.Program.SyntaxError
import WordMachine.SymbolTable.Encoding

namespace WordMachine

/-- The kinds of problems. -/
inductive Category
  /-- The source text holds what is not part of the language. -/
  | lexical
  /-- The tokens form no program. -/
  | syntactic
  /-- The program has no image. -/
  | semantic
  /-- A binary file is damaged. -/
  | format
  /-- The machine cannot go on. -/
  | execution
  deriving DecidableEq, Repr

/-- The text of a category. -/
def Category.text : Category → String
  | lexical => "lexical error"
  | syntactic => "syntax error"
  | semantic => "semantic error"
  | format => "format error"
  | execution => "execution error"

/-- The problem of a stage. -/
inductive Problem
  | fragment (e : FragmentError)
  | token (e : TokenError)
  | program (e : SyntaxError)
  | compile (e : CompileError)
  | format (e : FormatError)
  | execution (e : Fault)
  deriving DecidableEq, Repr

namespace Problem

/-- The category of a problem. -/
def category : Problem → Category
  | fragment _ | token _ => .lexical
  | program _ => .syntactic
  | compile _ => .semantic
  | format _ => .format
  | execution _ => .execution

/-- The place in the source text, if the problem has one. -/
def location? : Problem → Option Location
  | fragment e => e.location?
  | token e => e.location?
  | program e => some e.location
  | compile e => e.location?
  | format _ | execution _ => none

/-- The text of a problem without its category. -/
def detail : Problem → String
  | fragment e => e.message
  | token e => e.message
  | program e => e.message
  | compile e => e.message
  | format e => e.message
  | execution e => e.message

/-- The text of a problem. -/
def message (p : Problem) : String := p.category.text ++ ": " ++ p.detail

end Problem

end WordMachine
