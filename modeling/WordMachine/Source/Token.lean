-- Tokens: what the fragments of a source text mean.
import WordMachine.Instruction.Opcode
import WordMachine.Instruction.Register
import WordMachine.Source.Directive
import WordMachine.Source.Fragment
import WordMachine.Source.Punctuation

namespace WordMachine

/-- The meaning of a token. -/
inductive TokenValue
  | endOfLine
  /-- A string without its quotes, with its escapes as they stand. -/
  | string (s : String)
  | register (r : Register)
  | opcode (op : Opcode)
  | directive (d : Directive)
  /-- A name that is no register, opcode or directive. -/
  | identifier (name : String)
  | number (n : Nat)
  | punctuation (p : Punctuation)
  deriving DecidableEq, Repr

/-- What a token is, without its content. -/
inductive TokenKind
  | endOfLine | string | register | opcode | directive | identifier | number
  | punctuation (p : Punctuation)
  deriving DecidableEq, Repr

/-- The text of a kind in messages. -/
def TokenKind.text : TokenKind → String
  | endOfLine => "end of line"
  | string => "string"
  | register => "register"
  | opcode => "opcode"
  | directive => "directive"
  | identifier => "identifier"
  | number => "number"
  | punctuation p => "'" ++ String.singleton p.char ++ "'"

/-- The kind of a meaning. -/
def TokenValue.kind : TokenValue → TokenKind
  | endOfLine => .endOfLine
  | string _ => .string
  | register _ => .register
  | opcode _ => .opcode
  | directive _ => .directive
  | identifier _ => .identifier
  | number _ => .number
  | punctuation p => .punctuation p

/-- A meaning and the fragment that has it. -/
structure Token where
  value : TokenValue
  source : Fragment
  deriving DecidableEq, Repr

namespace Token

/-- The kind of a token. -/
def kind (t : Token) : TokenKind := t.value.kind

/-- The place of the first character of a token. -/
def location (t : Token) : Location := t.source.location

/-- The token ends a line. -/
def endsLine (t : Token) : Bool := t.value == .endOfLine

end Token

/-- Why fragments have no meaning. -/
inductive TokenError
  /-- There are no fragments. -/
  | noFragments
  /-- The fragment is of no known kind. -/
  | unknownFragment (text : String) (location : Location)
  /-- The fragment is a symbol, but no punctuation mark. -/
  | unknownSymbol (text : String) (location : Location)
  /-- The number does not fit in 32 bits. -/
  | numberTooLarge (text : String) (location : Location)
  deriving DecidableEq, Repr

namespace TokenError

/-- The place of the error. -/
def location? : TokenError → Option Location
  | noFragments => none
  | unknownFragment _ location | unknownSymbol _ location | numberTooLarge _ location => some location

/-- The text of the error. -/
def message : TokenError → String
  | noFragments => "no tokens to lex"
  | unknownFragment text location => s!"unknown token {Text.quoteText text} at {location.text}"
  | unknownSymbol text location => s!"unknown symbol {Text.quoteText text} at {location.text}"
  | numberTooLarge text location => s!"number {text} at {location.text} is too large"

end TokenError

end WordMachine
