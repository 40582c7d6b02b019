-- Words and bytes. A word is sixteen bits wide and stands in two bytes, the
-- high one first.

namespace WordMachine

/-- A row of bytes. -/
abbrev Bytes := List UInt8

namespace Word

/-- The high byte of a word. -/
def high (w : UInt16) : UInt8 := (w >>> 8).toUInt8

/-- The low byte of a word. -/
def low (w : UInt16) : UInt8 := w.toUInt8

/-- The word with the given high and low bytes. -/
def ofBytes (hi lo : UInt8) : UInt16 := hi.toUInt16 <<< 8 ||| lo.toUInt16

/-- The two bytes of a word, high byte first. -/
def toBytes (w : UInt16) : Bytes := [high w, low w]

theorem length_toBytes (w : UInt16) : (toBytes w).length = 2 := rfl

end Word

end WordMachine
