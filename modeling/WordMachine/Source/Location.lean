-- Places in a source text.

namespace WordMachine

/-- A place in a source text. All three numbers count characters or lines
from zero. -/
structure Location where
  index : Nat
  line : Nat
  column : Nat
  deriving DecidableEq, Repr, Inhabited, Ord

namespace Location

/-- The start of a text. -/
def start : Location := ⟨0, 0, 0⟩

/-- The place `n` characters further on the same line. -/
def right (l : Location) (n : Nat) : Location :=
  ⟨l.index + n, l.line, l.column + n⟩

/-- The start of the next line, when the line end at this place is `n`
characters long. -/
def nextLine (l : Location) (n : Nat) : Location :=
  ⟨l.index + n, l.line + 1, 0⟩

/-- Lines and columns are shown from one. -/
def text (l : Location) : String :=
  s!"line {l.line + 1} col {l.column + 1}"

/-- A list of places in order: by index, then by line, then by column. -/
def sorted (ls : List Location) : List Location :=
  ls.mergeSort fun a b => (compare a b).isLE

end Location

end WordMachine
