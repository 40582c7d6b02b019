-- The sixteen registers of the machine.
import WordMachine.Text.Upper

namespace WordMachine

/-- A register. The last one is also the stack pointer. -/
inductive Register
  | a | b | c | d | e | f | g | h | i | j | k | l | m | n | o | sp
  deriving DecidableEq, Repr, Inhabited

namespace Register

/-- Every register, in the order of the indices. -/
def all : List Register := [a, b, c, d, e, f, g, h, i, j, k, l, m, n, o, sp]

/-- The number of a register in an instruction word. -/
def index : Register → Fin 16
  | a => 0 | b => 1 | c => 2 | d => 3 | e => 4 | f => 5 | g => 6 | h => 7
  | i => 8 | j => 9 | k => 10 | l => 11 | m => 12 | n => 13 | o => 14 | sp => 15

/-- The register with the given index. -/
def ofIndex (n : Fin 16) : Register := all[n]

theorem ofIndex_index (r : Register) : ofIndex r.index = r := by cases r <;> rfl

theorem index_inj {r s : Register} : r.index = s.index ↔ r = s := by
  constructor
  · intro h
    rw [← ofIndex_index r, h, ofIndex_index]
  · intro h
    rw [h]

theorem index_ofIndex (n : Fin 16) : (ofIndex n).index = n := by decide +revert

/-- The register in the low four bits of a word. -/
def ofNibble (w : UInt16) : Register := ofIndex ⟨w.toNat % 16, Nat.mod_lt _ (by decide)⟩

/-- The index of a register as a word. -/
def nibble (r : Register) : UInt16 := UInt16.ofNat r.index

/-- The name of a register in source text. -/
def name : Register → String
  | a => "A" | b => "B" | c => "C" | d => "D" | e => "E" | f => "F" | g => "G" | h => "H"
  | i => "I" | j => "J" | k => "K" | l => "L" | m => "M" | n => "N" | o => "O" | sp => "SP"

/-- The register with a name. Upper and lower case are the same. -/
def ofName? (s : String) : Option Register :=
  let upper := Text.upperCase s
  all.find? (·.name == upper)

end Register

end WordMachine
