-- The meaning of fragments. Blanks and comments have none, and of the line
-- ends only those that end a line with something on it.
import WordMachine.Source.Token
import WordMachine.Text.Basic
import WordMachine.Text.Numeral

namespace WordMachine

/-! ## One fragment -/

/-- The meaning of a name. Registers come before opcodes and opcodes before
directives. -/
def TokenValue.ofName (s : String) : TokenValue :=
  match Register.ofName? s with
  | some r => .register r
  | none =>
    match Opcode.ofMnemonic? s with
    | some op => .opcode op
    | none =>
      match Directive.ofWord? s with
      | some d => .directive d
      | none => .identifier s

/-- A string without its quotes. -/
def stringBody (s : String) : String :=
  String.ofList ((Text.trimBytes? s.toList).getD [])

/-- The mark that a symbol stands for. -/
def markOf? (s : String) : Option Punctuation :=
  match s.toList with
  | [c] => Punctuation.ofChar? c
  | _ => none

/-- The digits of a hexadecimal number: all after the first two bytes. -/
def hexDigits (s : String) : List Char := (Text.dropBytes? 2 s.toList).getD []

/-- A number in a base, if it fits in 32 bits. -/
def smallNumber? (base : Nat) (digits : List Char) : Option Nat :=
  (Text.readNumeral? base digits).filter (· < UInt32.size)

namespace Fragment

/-- The meaning of a fragment, or none for blanks and comments. -/
def meaning (f : Fragment) : Except TokenError (Option TokenValue) :=
  match f.kind with
  | .whitespace | .comment => .ok none
  | .unknown => .error (.unknownFragment f.text f.location)
  | .endOfLine => .ok (some .endOfLine)
  | .string => .ok (some (.string (stringBody f.text)))
  | .symbol =>
    match markOf? f.text with
    | some p => .ok (some (.punctuation p))
    | none => .error (.unknownSymbol f.text f.location)
  | .hexNumber =>
    match smallNumber? 16 (hexDigits f.text) with
    | some n => .ok (some (.number n))
    | none => .error (.numberTooLarge f.text f.location)
  | .number =>
    match smallNumber? 10 f.text.toList with
    | some n => .ok (some (.number n))
    | none => .error (.numberTooLarge f.text f.location)
  | .identifier => .ok (some (.ofName f.text))

/-- The token of a fragment, or none for blanks and comments. -/
def token? (f : Fragment) : Except TokenError (Option Token) :=
  f.meaning.map (·.map fun v => ⟨v, f⟩)

end Fragment

/-! ## All fragments -/

namespace Token

/-- Puts a token before those of `done`, of which the last one comes first. A
line end is left out where no token of its line comes before it. -/
def keep (done : List Token) (t : Token) : List Token :=
  if t.endsLine && done.head?.all endsLine then done else t :: done

/-- The tokens without the ends of empty lines. -/
def dropEmptyLines (ts : List Token) : List Token := (ts.foldl keep []).reverse

/-- The tokens of the fragments of a source text. -/
def ofFragments (fs : List Fragment) : Except TokenError (List Token) :=
  if fs.isEmpty then .error .noFragments
  else (fs.mapM Fragment.token?).map fun ts => dropEmptyLines (ts.filterMap id)

end Token

end WordMachine
