-- Symbol tables: the labels of an image, for tools that work on its bytes.
import WordMachine.Image.Basic
import WordMachine.Text.Basic
import WordMachine.Text.Numeral

namespace WordMachine

/-- Whether a symbol table holds the names of the labels. -/
inductive SymbolMode
  | release | debug
  deriving DecidableEq, Repr

namespace SymbolMode

/-- The byte that stands for a mode in an encoded table. -/
def flag : SymbolMode → UInt8
  | release => 0
  | debug => 2

/-- The mode that a byte stands for. -/
def ofFlag? (b : UInt8) : Option SymbolMode :=
  if b = 0 then some release else if b = 2 then some debug else none

/-- The name of a mode. -/
def name : SymbolMode → String
  | release => "release"
  | debug => "debug"

end SymbolMode

/-- The labels of an image. Entry `i` of each list belongs to the same label;
there are no names in release mode. -/
structure SymbolTable where
  mode : SymbolMode
  defines : List UInt16
  references : List (List UInt16)
  names : List String
  deriving DecidableEq, Repr

namespace SymbolTable

/-- The table without labels. -/
def empty (mode : SymbolMode) : SymbolTable := ⟨mode, [], [], []⟩

/-- The number of labels. -/
def size (t : SymbolTable) : Nat := t.defines.length

/-- The table with one more label at its end. -/
def push (t : SymbolTable) (name : String) (address : UInt16) (references : List UInt16) :
    SymbolTable :=
  { t with
    defines := t.defines ++ [address]
    references := t.references ++ [references]
    names := if t.mode = .debug then t.names ++ [name] else t.names }

/-! ## Listing -/

/-- The width of the column of names, in bytes. -/
def nameWidth (t : SymbolTable) : Nat := (t.names.map String.utf8ByteSize).foldl max 0

/-- The references of a label in a listing; no text if there are none. -/
def referencesText (references : List UInt16) : String :=
  if references.isEmpty then ""
  else "  refs: " ++ " ".intercalate (references.map Text.hexWord)

/-- The line of a label in a listing. A label without a name has a number. -/
def lineText (width index : Nat) (address : UInt16) (name : Option String)
    (references : List UInt16) : String :=
  Text.hexWord address ++ "  " ++ Text.padRight width (name.getD s!"#{index}")
    ++ referencesText references ++ "\n"

/-- The lines of the labels, from number `index` on. `done` holds the lines so
far, the last one first. -/
def linesFrom (width : Nat) (done : List String) (index : Nat) :
    List UInt16 → List (List UInt16) → List String → List String
  | [], _, _ => done.reverse
  | address :: defines, references, names =>
    linesFrom width
      (lineText width index address names.head? (references.head?.getD []) :: done)
      (index + 1) defines references.tail names.tail

/-- A table as text, one line for each label. -/
def listing (t : SymbolTable) : String :=
  s!"symbol table ({t.mode.name}, {t.size} labels)\n"
    ++ String.join (linesFrom t.nameWidth [] 0 t.defines t.references t.names)

end SymbolTable

/-! ## The table of an image -/

namespace Image

/-- The labels by address, and by name where two have the same address. -/
def sortedLabels (image : Image) : List (String × UInt16) :=
  image.defines.toList.mergeSort fun a b => decide (a.2 ≤ b.2)

/-- The symbol table of an image. -/
def symbolTable (image : Image) (mode : SymbolMode) : SymbolTable :=
  { mode
    defines := image.sortedLabels.map (·.2)
    references := image.sortedLabels.map fun l => image.references[l.1]?.getD []
    names := if mode = .debug then image.sortedLabels.map (·.1) else [] }

end Image

end WordMachine
