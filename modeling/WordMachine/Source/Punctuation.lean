-- Punctuation marks.

namespace WordMachine

/-- A punctuation mark. -/
inductive Punctuation
  | exclaim | sharp | dollar | percent | amp | quote | leftParen | rightParen | asterisk | plus
  | comma | minus | colon | lessThan | equals | greaterThan | question | at | period | slash
  | leftBracket | backslash | rightBracket | caret | backtick | leftBrace | bar | rightBrace | tilde
  deriving DecidableEq, Repr

namespace Punctuation

/-- Every punctuation mark. -/
def all : List Punctuation :=
  [exclaim, sharp, dollar, percent, amp, quote, leftParen, rightParen, asterisk, plus,
   comma, minus, colon, lessThan, equals, greaterThan, question, .at, period, slash,
   leftBracket, backslash, rightBracket, caret, backtick, leftBrace, bar, rightBrace, tilde]

/-- The character of a mark. -/
def char : Punctuation → Char
  | exclaim => '!'
  | sharp => '#'
  | dollar => '$'
  | percent => '%'
  | amp => '&'
  | quote => '\''
  | leftParen => '('
  | rightParen => ')'
  | asterisk => '*'
  | plus => '+'
  | comma => ','
  | minus => '-'
  | colon => ':'
  | lessThan => '<'
  | equals => '='
  | greaterThan => '>'
  | question => '?'
  | .at => '@'
  | period => '.'
  | slash => '/'
  | leftBracket => '['
  | backslash => '\\'
  | rightBracket => ']'
  | caret => '^'
  | backtick => '\x60'
  | leftBrace => '\x7b'
  | bar => '|'
  | rightBrace => '\x7d'
  | tilde => '~'

/-- The name of a mark. -/
def name : Punctuation → String
  | exclaim => "Exclaim"
  | sharp => "Sharp"
  | dollar => "Dollar"
  | percent => "Percent"
  | amp => "Amp"
  | quote => "Quote"
  | leftParen => "LParen"
  | rightParen => "RParen"
  | asterisk => "Asterisk"
  | plus => "Plus"
  | comma => "Comma"
  | minus => "Minus"
  | colon => "Colon"
  | lessThan => "LessThan"
  | equals => "Equals"
  | greaterThan => "GreaterThan"
  | question => "QuestMark"
  | .at => "At"
  | period => "Period"
  | slash => "FwdSlash"
  | leftBracket => "LSBrack"
  | backslash => "Backslash"
  | rightBracket => "RSBrack"
  | caret => "Caret"
  | backtick => "Backtick"
  | leftBrace => "LCBrack"
  | bar => "VertBar"
  | rightBrace => "RCBrack"
  | tilde => "Tilde"

/-- The mark with a character. -/
def ofChar? (c : Char) : Option Punctuation := all.find? (·.char == c)

theorem ofChar?_char (p : Punctuation) : ofChar? p.char = some p := by cases p <;> rfl

end Punctuation

end WordMachine
