-- Quotation of texts and characters in messages. What has a picture of its
-- own stands as it is, all else is escaped.
import WordMachine.Text.Invisible

namespace WordMachine.Text

/-- The lower-case hexadecimal digits of a number, without leading zeros. -/
def codePoint (c : Char) : String :=
  String.ofList (Nat.toDigits 16 c.toNat)

/-- One character of a quotation that stands between two `mark`s. -/
def quoteInside (mark c : Char) : String :=
  if c = '\x00' then "\\0"
  else if c = '\t' then "\\t"
  else if c = '\r' then "\\r"
  else if c = '\n' then "\\n"
  else if c = '\\' || c = mark then String.ofList ['\\', c]
  else if isInvisible c then "\\u\x7b" ++ codePoint c ++ "\x7d"
  else String.singleton c

/-- A text between double quotes. -/
def quoteText (s : String) : String :=
  "\"" ++ String.join (s.toList.map (quoteInside '"')) ++ "\""

/-- A character between single quotes. -/
def quoteChar (c : Char) : String :=
  "'" ++ quoteInside '\'' c ++ "'"

end WordMachine.Text
