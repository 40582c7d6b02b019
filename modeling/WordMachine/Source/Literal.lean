-- String literals: the escapes that stand for bytes. Reading a literal that
-- was written from bytes gives the bytes back.
import WordMachine.Text.Numeral
import WordMachine.Word

namespace WordMachine

/-- An escape that has no meaning, as it is written after its backslash. -/
structure InvalidEscape where
  text : String
  deriving DecidableEq, Repr

/-- The text of an invalid escape. -/
def InvalidEscape.message (e : InvalidEscape) : String :=
  "invalid escape sequence '\\" ++ e.text ++ "'"

namespace Literal

/-! ## Reading -/

/-- The byte that a backslash and one character stand for. -/
def shortEscape? (c : Char) : Option UInt8 :=
  [('\\', 0x5C), ('"', 0x22), ('\'', 0x27), ('0', 0x00), ('a', 0x07), ('b', 0x08),
   ('f', 0x0C), ('n', 0x0A), ('r', 0x0D), ('t', 0x09), ('v', 0x0B)].lookup c

/-- The value of exactly `n` hexadecimal digits. -/
def hexValue? (n : Nat) (digits : List Char) : Option Nat :=
  if digits.length = n then Text.readNumeral? 16 digits else none

/-- The character with a code point. -/
def charOf? (n : Nat) : Option Char :=
  if n.isValidChar then some (Char.ofNat n) else none

/-- The bytes of an escape, and what follows it. The text starts after the
backslash. -/
def readEscape : List Char → Except InvalidEscape (Bytes × List Char)
  | [] => .error ⟨""⟩
  | c :: cs =>
    match shortEscape? c with
    | some b => .ok ([b], cs)
    | none =>
      if c = 'x' then
        match hexValue? 2 (cs.take 2) with
        | some n => .ok ([UInt8.ofNat n], cs.drop 2)
        | none => .error ⟨String.ofList (c :: cs.take 2)⟩
      else if c = 'u' then
        match (hexValue? 4 (cs.take 4)).bind charOf? with
        | some d => .ok (String.utf8EncodeChar d, cs.drop 4)
        | none => .error ⟨String.ofList (c :: cs.take 4)⟩
      else .error ⟨String.singleton c⟩

theorem length_readEscape {cs : List Char} {r : Bytes × List Char} (h : readEscape cs = .ok r) :
    r.2.length < cs.length := by
  cases cs with
  | nil => cases h
  | cons c cs =>
    simp only [readEscape] at h
    repeat' split at h
    all_goals cases h
    all_goals simp only [List.length_cons, List.length_drop]; omega

/-- Reads a literal to its end. `done` holds the bytes so far, the last one
first. -/
def readFrom (done : Bytes) (cs : List Char) : Except InvalidEscape Bytes :=
  match cs with
  | [] => .ok done.reverse
  | c :: rest =>
    if c = '\\' then
      match _h : readEscape rest with
      | .ok (bytes, after) => readFrom (bytes.reverse ++ done) after
      | .error e => .error e
    else readFrom ((String.utf8EncodeChar c).reverse ++ done) rest
termination_by cs.length
decreasing_by
  · have := length_readEscape ‹_›
    simp only [List.length_cons] at this ⊢
    omega
  · simp

/-- The bytes that a literal stands for. Plain characters stand for their
encoding. -/
def read (literal : String) : Except InvalidEscape Bytes := readFrom [] literal.toList

/-! ## Writing -/

/-- A byte as it is written in a literal. A quote has to be written by its
number, because no literal can hold a quote. -/
def writeByte (b : UInt8) : List Char :=
  if b = 0x5C then ['\\', '\\']
  else if b = 0x0A then ['\\', 'n']
  else if b = 0x0D then ['\\', 'r']
  else if b = 0x09 then ['\\', 't']
  else if 0x20 ≤ b ∧ b ≤ 0x7E ∧ b ≠ 0x22 then [Char.ofNat b.toNat]
  else '\\' :: 'x' :: Text.hexField 2 b.toNat

/-- The literal for a row of bytes: plain printable characters and escapes. -/
def write (bytes : Bytes) : String := String.ofList (bytes.flatMap writeByte)

end Literal

end WordMachine
