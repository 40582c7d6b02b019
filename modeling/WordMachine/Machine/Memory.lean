-- The memory of the machine: one byte at each of the 65536 addresses.
-- Addresses wrap around.
import WordMachine.Image.Basic

namespace WordMachine

/-- The contents of the memory. -/
structure Memory where
  cells : Vector UInt8 65536
  deriving DecidableEq

namespace Memory

/-- The memory with zero at every address. -/
def zeroed : Memory := ⟨Vector.replicate 65536 0⟩

/-- The byte at an address. -/
def read (m : Memory) (address : UInt16) : UInt8 :=
  have : address.toNat < 65536 := address.toNat_lt
  m.cells[address.toNat]

/-- The memory with `b` at an address. -/
def write (m : Memory) (address : UInt16) (b : UInt8) : Memory :=
  ⟨m.cells.set address.toNat b address.toNat_lt⟩

/-- The word at an address and the address after it. -/
def readWord (m : Memory) (address : UInt16) : UInt16 :=
  Word.ofBytes (m.read address) (m.read (address + 1))

/-- The memory with the word `w` at an address and the address after it. -/
def writeWord (m : Memory) (address w : UInt16) : Memory :=
  (m.write address (Word.high w)).write (address + 1) (Word.low w)

/-- The memory with a row of bytes from an address on. -/
def load (m : Memory) (bytes : Bytes) (address : UInt16) : Memory :=
  match bytes with
  | [] => m
  | b :: bs => (m.write address b).load bs (address + 1)

/-- The memory with a program at address zero. -/
def ofProgram (bytes : Bytes) : Memory := zeroed.load bytes 0

/-- The size of the memory, as the debugger shows it. -/
def summary (m : Memory) : String := s!"FlatMemory({m.cells.size} bytes)"

theorem read_zeroed (x : UInt16) : zeroed.read x = 0 := by
  simp [read, zeroed]

theorem read_write (m : Memory) (x y : UInt16) (b : UInt8) :
    (m.write x b).read y = if x = y then b else m.read y := by
  simp only [read, write, Vector.getElem_set, UInt16.toNat_inj]

end Memory

end WordMachine
