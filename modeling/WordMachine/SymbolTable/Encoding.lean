-- The binary form of symbol tables. All numbers have their high byte first:
-- a header, then the addresses, the references and three reserved sections,
-- and in debug mode the names. Every list starts with its length.
import WordMachine.SymbolTable.Basic

namespace WordMachine

/-- The sections of an encoded table. -/
inductive SymbolSection
  | defines | references | externalSymbols | publicSymbols | extraDelta | names
  deriving DecidableEq, Repr

/-- The name of a section. -/
def SymbolSection.name : SymbolSection → String
  | defines => "defines"
  | references => "references"
  | externalSymbols => "external symbol"
  | publicSymbols => "public symbol"
  | extraDelta => "extra delta"
  | names => "names"

/-- What is wrong with a table or its encoded form. -/
inductive FormatError
  | badMagic (word : UInt16)
  | badVersion (version : UInt8)
  | badFlag (flag : UInt8)
  /-- A section has not as many entries as there are labels. -/
  | countMismatch (sec : SymbolSection) (expected found : Nat)
  /-- A reserved section is not empty. -/
  | unsupportedSection (sec : SymbolSection)
  | invalidName (index : Nat)
  /-- The input ends within the field at the offset. -/
  | truncated (offset : Nat)
  /-- There are bytes behind the table. -/
  | trailingData (offset : Nat)
  /-- A length does not fit in 16 bits. -/
  | tooLarge (sec : SymbolSection)
  deriving DecidableEq, Repr

namespace SymbolTable

/-- The word that every encoded table starts with. -/
def magic : UInt16 := 0xABEF

/-- The version of the format. -/
def version : UInt8 := 1

end SymbolTable

/-- The text of a format error. -/
def FormatError.message : FormatError → String
  | badMagic word =>
    "bad magic number 0x" ++ Text.hexWord word ++ ", expected 0x" ++ Text.hexWord SymbolTable.magic
  | badVersion version => s!"unsupported version {version}, expected {SymbolTable.version}"
  | badFlag flag => s!"unknown flag {flag}"
  | countMismatch sec expected found =>
    s!"{sec.name} section has {found} entries, expected {expected}"
  | unsupportedSection sec => s!"{sec.name} section is not supported and must be empty"
  | invalidName index => s!"name of label {index} is not valid UTF-8"
  | truncated offset => s!"unexpected end of input at offset {offset}"
  | trailingData offset => s!"unexpected data after the table at offset {offset}"
  | tooLarge sec => s!"{sec.name} section has more than 65535 entries"

namespace SymbolTable

/-- A length, which must fit in 16 bits. -/
def encodeCount (sec : SymbolSection) (n : Nat) : Except FormatError Bytes :=
  if n < UInt16.size then .ok (Word.toBytes (UInt16.ofNat n)) else .error (.tooLarge sec)

/-- A list of words behind its length. -/
def encodeWords (sec : SymbolSection) (ws : List UInt16) : Except FormatError Bytes :=
  (encodeCount sec ws.length).map (· ++ ws.flatMap Word.toBytes)

/-- A name behind its length in bytes. -/
def encodeName (name : String) : Except FormatError Bytes :=
  (encodeCount .names name.utf8ByteSize).map (· ++ name.toUTF8.toList)

/-- The header: magic word, version and mode. -/
def header (mode : SymbolMode) : Bytes := Word.toBytes magic ++ [version, mode.flag]

/-- The reserved sections, which are empty. -/
def reserved : Bytes := List.replicate 6 0

/-- The lists of a table are equally long. -/
def checkCounts (t : SymbolTable) : Except FormatError Unit :=
  if t.references.length ≠ t.size then
    .error (.countMismatch .references t.size t.references.length)
  else if t.mode = .debug ∧ t.names.length ≠ t.size then
    .error (.countMismatch .names t.size t.names.length)
  else .ok ()

/-- The section of the names, which only debug tables have. -/
def encodeNames (t : SymbolTable) : Except FormatError Bytes :=
  match t.mode with
  | .release => .ok []
  | .debug => do
    let count ← encodeCount .names t.size
    let names ← t.names.mapM encodeName
    return count ++ names.flatten

/-- The binary form of a table. -/
def encode (t : SymbolTable) : Except FormatError Bytes := do
  t.checkCounts
  let defines ← encodeWords .defines t.defines
  let count ← encodeCount .references t.size
  let references ← t.references.mapM (encodeWords .references)
  let names ← t.encodeNames
  return header t.mode ++ defines ++ count ++ references.flatten ++ reserved ++ names

end SymbolTable

end WordMachine
