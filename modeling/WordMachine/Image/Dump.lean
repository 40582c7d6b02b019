-- Hexadecimal dumps of images.
import WordMachine.Image.Basic
import WordMachine.Text.Numeral

namespace WordMachine.Image

/-- Bytes in pairs. A last odd byte stands alone. -/
def pairs : Bytes → List String
  | [] => []
  | [b] => [Text.hexByte b]
  | b :: c :: bs => (Text.hexByte b ++ Text.hexByte c) :: pairs bs

/-- One row of a dump: the offset of its first byte, then the bytes. -/
def dumpRow (offset : Nat) (bytes : Bytes) : String :=
  Text.hex 4 offset ++ ":" ++ String.join ((pairs bytes).map (" " ++ ·)) ++ "\n"

/-- Rows of sixteen bytes. `done` holds the rows so far, the last one first. -/
def dumpFrom (done : List String) (offset : Nat) (bytes : Bytes) : List String :=
  if bytes = [] then done.reverse
  else dumpFrom (dumpRow offset (bytes.take 16) :: done) (offset + 16) (bytes.drop 16)
termination_by bytes.length
decreasing_by
  rename_i h
  have := List.length_pos_iff.2 h
  simp only [List.length_drop]
  omega

/-- The bytes of an image in rows of sixteen. -/
def hexDump (image : Image) : String := String.join (dumpFrom [] 0 image.bytes)

end WordMachine.Image
