-- Relocation: an image for another place in memory.
import WordMachine.Image.Basic

namespace WordMachine.Image

/-- Adds `base` to the word at an offset, if the whole word is there. -/
def patch (base : UInt16) (bytes : Array UInt8) (site : UInt16) : Array UInt8 :=
  if h : site.toNat + 1 < bytes.size then
    let w := Word.ofBytes bytes[site.toNat] bytes[site.toNat + 1] + base
    (bytes.setIfInBounds site.toNat (Word.high w)).setIfInBounds (site.toNat + 1) (Word.low w)
  else bytes

/-- The image for loading at `base` instead of zero. Every word that holds an
address moves with its label; offsets stay as they are. -/
def relocate (image : Image) (base : UInt16) : Image :=
  { image with
    bytes := (image.relocations.sites.foldl (patch base) image.bytes.toArray).toList
    defines := image.defines.map fun _ address => address + base }

end WordMachine.Image
