-- Diagnostics: a message under the line of the source text that it is about.
import WordMachine.Source.Fragment

namespace WordMachine.Fragment

/-- The text of a line without its end, put together from its fragments. -/
def lineText (fs : List Fragment) (line : Nat) : String :=
  String.join ((fs.filter fun f => f.location.line == line && f.kind != .endOfLine).map (·.text))

/-- The number of a line, counted from one, at the left of the line. -/
def margin (line : Nat) : String := Text.padLeft 3 (toString (line + 1)) ++ "|"

/-- The line of a place, a caret under the place, and the message. -/
def diagnostic (fs : List Fragment) (place : Location) (message : String) : String :=
  let margin := margin place.line
  margin ++ lineText fs place.line ++ "\n"
    ++ Text.blanks (margin.length + place.column) ++ "^\n" ++ message

end WordMachine.Fragment
