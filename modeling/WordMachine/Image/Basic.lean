-- Images: encoded programs, with what is known about the labels in them.
import WordMachine.AddressMap
import WordMachine.Labels
import WordMachine.Source.Location
import WordMachine.Word

namespace WordMachine

/-- The number of bytes that addresses reach. -/
def addressSpace : Nat := 0x10000

/-- An encoded program. -/
structure Image where
  bytes : Bytes
  /-- The addresses of the labels. -/
  defines : LabelMap UInt16
  /-- For each label that is used, the offsets of the words that hold its
  address. -/
  references : LabelMap (List UInt16)
  /-- The offsets of all words that hold an address. -/
  relocations : SiteSet
  /-- For each offset at which a node starts, the place of the node. -/
  sourceMap : AddressMap Location
  deriving DecidableEq

end WordMachine
