-- Cutting a source text into fragments.
import WordMachine.Source.Lexeme

namespace WordMachine.Fragment

/-- The place after a lexeme that starts at `place`. -/
def placeAfter (place : Location) (x : Lexeme) : Location :=
  if x.kind = .endOfLine then place.nextLine x.chars.length else place.right x.chars.length

/-- Cuts off one lexeme after the other. `done` holds the fragments so far,
the last one first, and `place` is the place of the next character. -/
def splitFrom (done : List Fragment) (place : Location) (cs : List Char) :
    Except FragmentError (List Fragment) :=
  match _h : Lexeme.first? cs with
  | some x =>
    splitFrom (⟨x.kind, String.ofList x.chars, place⟩ :: done) (placeAfter place x) x.rest
  | none =>
    match cs with
    | [] => .ok done.reverse
    | c :: _ => .error (.unknownCharacter c place)
termination_by cs.length
decreasing_by exact Lexeme.length_rest_lt ‹_›

theorem splitFrom_of_first? {cs : List Char} {x : Lexeme} (h : Lexeme.first? cs = some x)
    (done : List Fragment) (place : Location) : splitFrom done place cs =
      splitFrom (⟨x.kind, .ofList x.chars, place⟩ :: done) (placeAfter place x) x.rest := by
  rw [splitFrom]
  split
  · rename_i y hy
    rw [h] at hy
    cases hy
    rfl
  · rename_i hy
    rw [h] at hy
    cases hy

/-- The fragments of a source text, each the longest that its start allows. -/
def split (source : String) : Except FragmentError (List Fragment) :=
  if source.isEmpty then .error .emptySource else splitFrom [] .start source.toList

/-- The number of lines that a row of fragments reaches over. -/
def lineCount (fs : List Fragment) : Nat :=
  fs.countP (·.kind == .endOfLine) + 1

end WordMachine.Fragment
