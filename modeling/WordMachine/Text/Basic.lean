-- Texts: columns of a given width, cuts at a byte offset, and the distance
-- between two texts.

namespace WordMachine.Text

/-! ## Columns

A text is filled up with blanks to the width of its column. Widths count
characters. -/

/-- The text at the left of a column. -/
def padRight (width : Nat) (s : String) : String :=
  s.pushn ' ' (width - s.length)

/-- The text at the right of a column. -/
def padLeft (width : Nat) (s : String) : String :=
  "".pushn ' ' (width - s.length) ++ s

/-- A row of blanks. -/
def blanks (n : Nat) : String := "".pushn ' ' n

/-! ## Cuts

A cut at a byte offset of the encoding has no result inside a character. -/

/-- What is left of a text after its first `n` bytes, if a character ends
there. -/
def dropBytes? : Nat → List Char → Option (List Char)
  | 0, cs => some cs
  | _, [] => none
  | n, c :: cs => if c.utf8Size ≤ n then dropBytes? (n - c.utf8Size) cs else none

/-- A text without its first and its last byte, if both are characters. -/
def trimBytes? (cs : List Char) : Option (List Char) :=
  (dropBytes? 1 cs).bind fun rest => (dropBytes? 1 rest.reverse).map List.reverse

/-! ## Distances

The edit distance of two texts is the fewest characters to insert, delete or
replace that turn one into the other. -/

/-- The distances from a text with one more character `c` to every prefix of
the target, from those without it. `left` is the entry just made and `diag`
the one above it. -/
def nextDistances (c : Char) (left diag : Nat) : List Nat → List Char → List Nat
  | up :: ups, t :: ts =>
    let here := min (min (up + 1) (left + 1)) (diag + if c = t then 0 else 1)
    here :: nextDistances c here up ups ts
  | _, _ => []

/-- One row of the table of distances, from the row before it. -/
def nextRow (target : List Char) (row : List Nat) (c : Char) : List Nat :=
  match row with
  | [] => []
  | first :: rest => (first + 1) :: nextDistances c (first + 1) first rest target

/-- The fewest single-character edits between two texts. -/
def editDistance (s target : List Char) : Nat :=
  (s.foldl (nextRow target) (List.range (target.length + 1))).getLast?.getD 0

end WordMachine.Text
