-- Lexemes: the longest piece of one kind at the start of a text.
import WordMachine.Source.Fragment

namespace WordMachine

/-! ## Classes of characters -/

/-- The blanks inside a line. -/
def isBlank (c : Char) : Bool := c == ' ' || c == '\t'

/-- A character that does not end a line. -/
def isInLine (c : Char) : Bool := c != '\r' && c != '\n'

/-- A character that can stand between quotes. -/
def isInString (c : Char) : Bool := c != '"' && isInLine c

/-- A hexadecimal digit of either case. -/
def isHexDigit (c : Char) : Bool :=
  c.isDigit || ('a' ≤ c && c ≤ 'f') || ('A' ≤ c && c ≤ 'F')

/-- A basic Latin letter or an underscore. -/
def isNameStart (c : Char) : Bool := c.isAlpha || c == '_'

/-- A character of a name after its first one. -/
def isNameChar (c : Char) : Bool := isNameStart c || c.isDigit

/-- The characters that are fragments of their own. -/
def symbolChars : List Char := "`~!@#$%^&*()-+\x7b\x7d[]|:',.<>/?".toList

/-- A character that is a fragment of its own. -/
def isSymbol (c : Char) : Bool := symbolChars.contains c

/-! ## The first lexeme of a text -/

/-- A piece at the start of a text, and what follows it. -/
structure Lexeme where
  kind : FragmentKind
  chars : List Char
  rest : List Char
  deriving DecidableEq, Repr

namespace Lexeme

/-- A first character and all that follow it of one class. -/
def run (kind : FragmentKind) (p : Char → Bool) (c : Char) (cs : List Char) : Lexeme :=
  ⟨kind, c :: cs.takeWhile p, cs.dropWhile p⟩

/-- A line end that starts with a carriage return: only with a line feed. -/
def afterReturn? (c : Char) : List Char → Option Lexeme
  | [] => none
  | d :: ds => if d = '\n' then some ⟨.endOfLine, [c, d], ds⟩ else none

/-- A string, whose second quote must be on the same line. -/
def quoted? (c : Char) (cs : List Char) : Option Lexeme :=
  match cs.dropWhile isInString with
  | [] => none
  | d :: ds => if d = '"' then some ⟨.string, c :: cs.takeWhile isInString ++ [d], ds⟩ else none

/-- A number. It is hexadecimal if it starts with a zero, an `x` and a
hexadecimal digit. -/
def number (c : Char) (cs : List Char) : Lexeme :=
  match cs with
  | [] => ⟨.number, [c], []⟩
  | x :: ds =>
    let digits := ds.takeWhile isHexDigit
    if c = '0' ∧ (x = 'x' ∨ x = 'X') ∧ digits ≠ [] then
      ⟨.hexNumber, c :: x :: digits, ds.dropWhile isHexDigit⟩
    else
      run .number Char.isDigit c cs

/-- The longest lexeme at the start of a text, if there is any. -/
def first? : List Char → Option Lexeme
  | [] => none
  | c :: cs =>
    if c = '\n' then some ⟨.endOfLine, [c], cs⟩
    else if c = '\r' then afterReturn? c cs
    else if isBlank c then some (run .whitespace isBlank c cs)
    else if c = ';' then some (run .comment isInLine c cs)
    else if c = '"' then quoted? c cs
    else if c.isDigit then some (number c cs)
    else if isNameStart c then some (run .identifier isNameChar c cs)
    else if isSymbol c then some ⟨.symbol, [c], cs⟩
    else none

/-! ## A lexeme and its rest are the whole text -/

theorem run_chars_append (kind : FragmentKind) (p : Char → Bool) (c : Char) (cs : List Char) :
    (run kind p c cs).chars ++ (run kind p c cs).rest = c :: cs := by
  simp [run]

theorem number_chars_append (c : Char) (cs : List Char) :
    (number c cs).chars ++ (number c cs).rest = c :: cs := by
  unfold number
  split
  · rfl
  · dsimp only
    split
    · simp
    · exact run_chars_append ..

theorem afterReturn?_chars_append {c : Char} {cs : List Char} {x : Lexeme}
    (h : afterReturn? c cs = some x) : x.chars ++ x.rest = c :: cs ∧ x.chars ≠ [] := by
  cases cs with
  | nil => simp [afterReturn?] at h
  | cons d ds =>
    simp only [afterReturn?] at h
    split at h
    · cases h
      simp
    · cases h

theorem quoted?_chars_append {c : Char} {cs : List Char} {x : Lexeme}
    (h : quoted? c cs = some x) : x.chars ++ x.rest = c :: cs ∧ x.chars ≠ [] := by
  unfold quoted? at h
  split at h
  · cases h
  · rename_i d ds hd
    split at h
    · cases h
      refine ⟨?_, by simp⟩
      have := List.takeWhile_append_dropWhile (p := isInString) (l := cs)
      rw [hd] at this
      simpa using this
    · cases h

/-- The characters of the first lexeme and the rest are the text, and the
lexeme is not empty. -/
theorem first?_chars_append {cs : List Char} {x : Lexeme} (h : first? cs = some x) :
    x.chars ++ x.rest = cs ∧ x.chars ≠ [] := by
  cases cs with
  | nil => simp [first?] at h
  | cons c cs =>
    simp only [first?] at h
    repeat' split at h
    · cases h; simp
    · exact afterReturn?_chars_append h
    · cases h; exact ⟨run_chars_append .., by simp [run]⟩
    · cases h; exact ⟨run_chars_append .., by simp [run]⟩
    · exact quoted?_chars_append h
    · cases h
      refine ⟨number_chars_append .., ?_⟩
      unfold number
      split
      · simp
      · dsimp only
        split <;> simp [run]
    · cases h; exact ⟨run_chars_append .., by simp [run]⟩
    · cases h; simp
    · cases h

theorem length_rest_lt {cs : List Char} {x : Lexeme} (h : first? cs = some x) :
    x.rest.length < cs.length := by
  obtain ⟨h, hne⟩ := first?_chars_append h
  have := List.length_pos_iff.2 hne
  rw [← h, List.length_append]
  omega

end Lexeme

end WordMachine
