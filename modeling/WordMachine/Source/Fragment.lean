-- Fragments of a source text: the pieces that the text is cut into, with
-- nothing left out, so that the text can be put together from them again.
import WordMachine.Source.Location
import WordMachine.Text.Basic
import WordMachine.Text.Quoted

namespace WordMachine

/-- The kinds of fragments. -/
inductive FragmentKind
  /-- A character that starts no fragment. -/
  | unknown
  | endOfLine
  | whitespace
  /-- A comment from a semicolon to the end of its line. -/
  | comment
  /-- A string on one line, with its quotes. -/
  | string
  | symbol
  | hexNumber
  | number
  | identifier
  deriving DecidableEq, Repr

/-- The name of a kind in listings. -/
def FragmentKind.name : FragmentKind → String
  | unknown => "Unknown"
  | endOfLine => "EndOfLine"
  | whitespace => "Whitespace"
  | comment => "Comment"
  | string => "String"
  | symbol => "Symbol"
  | hexNumber => "HexNumber"
  | number => "Number"
  | identifier => "Identifier"

/-- A piece of a source text and the place of its first character. -/
structure Fragment where
  kind : FragmentKind
  text : String
  location : Location
  deriving DecidableEq, Repr

namespace Fragment

/-- The place right after the last character, on the same line. -/
def finish (f : Fragment) : Location := f.location.right f.text.length

/-- The fragment in a listing: its line and column, its kind and its text. -/
def listing (f : Fragment) : String :=
  Text.padLeft 4 (toString (f.location.line + 1)) ++ ":"
    ++ Text.padRight 3 (toString (f.location.column + 1)) ++ " "
    ++ Text.padRight 10 f.kind.name ++ " " ++ Text.quoteText f.text

end Fragment

/-- Why a text cannot be cut into fragments. -/
inductive FragmentError
  /-- There is no text. -/
  | emptySource
  /-- No fragment starts with the character. -/
  | unknownCharacter (c : Char) (location : Location)
  deriving DecidableEq, Repr

namespace FragmentError

/-- The place of the error. -/
def location? : FragmentError → Option Location
  | emptySource => none
  | unknownCharacter _ location => some location

/-- The text of the error. -/
def message : FragmentError → String
  | emptySource => "cannot tokenize empty source"
  | unknownCharacter c location => s!"unknown character {Text.quoteChar c} at {location.text}"

end FragmentError

end WordMachine
