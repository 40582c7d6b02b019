-- Syntax errors.
import WordMachine.Source.Literal
import WordMachine.Source.Token

namespace WordMachine

/-- Why tokens form no program. -/
inductive SyntaxCause
  /-- There are no tokens. -/
  | noTokens
  | unexpectedToken (expected : List TokenKind) (found : TokenKind)
  | unexpectedEnd (expected : List TokenKind)
  | duplicateLabel (name : String) (previous : Location)
  /-- A name stands where a statement should start. -/
  | unknownMnemonic (name : String) (suggestion : Option String)
  /-- The document has a name already. -/
  | duplicateName
  /-- The immediate is not one number or label. -/
  | invalidImmediate (tokens : Nat)
  | numberTooLarge (value : Nat)
  | invalidEscape (e : InvalidEscape)
  deriving DecidableEq, Repr

/-- Some kinds of tokens, of which one is expected. -/
def TokenKind.alternatives (kinds : List TokenKind) : String :=
  " or ".intercalate (kinds.map TokenKind.text)

/-- The text of a cause. -/
def SyntaxCause.message : SyntaxCause → String
  | noTokens => "nothing to parse"
  | unexpectedToken expected found =>
    s!"expected {TokenKind.alternatives expected}, found {found.text}"
  | unexpectedEnd expected => s!"expected {TokenKind.alternatives expected}, found end of input"
  | duplicateLabel name previous => s!"label '{name}' is already defined at {previous.text}"
  | unknownMnemonic name (some suggestion) =>
    s!"unknown opcode or directive '{name}', did you mean '{suggestion}'?"
  | unknownMnemonic name none => s!"unknown opcode or directive '{name}'"
  | duplicateName => "the document name is already set"
  | invalidImmediate tokens =>
    s!"expected a single number or label as the immediate, found {tokens} tokens"
  | numberTooLarge value => s!"number {value} does not fit in 16 bits"
  | invalidEscape e => e.message

/-- A cause and the place where it was found. -/
structure SyntaxError where
  cause : SyntaxCause
  location : Location
  deriving DecidableEq, Repr

namespace SyntaxError

/-- The text of the error. -/
def message (e : SyntaxError) : String := s!"{e.cause.message} at {e.location.text}"

/-- The error for a token that is none of the expected kinds. -/
def unexpected (expected : List TokenKind) (t : Token) : SyntaxError :=
  ⟨.unexpectedToken expected t.kind, t.location⟩

end SyntaxError

end WordMachine
