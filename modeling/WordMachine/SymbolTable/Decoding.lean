-- Reading the binary form of symbol tables.
import WordMachine.SymbolTable.Encoding

namespace WordMachine

/-- What is left of an input, and the offset at which it starts. -/
structure Unread where
  offset : Nat
  bytes : Bytes
  deriving DecidableEq, Repr

namespace Unread

/-- One byte. -/
def byte (u : Unread) : Except FormatError (UInt8 × Unread) :=
  match u.bytes with
  | b :: bs => .ok (b, ⟨u.offset + 1, bs⟩)
  | [] => .error (.truncated u.offset)

/-- One word. -/
def word (u : Unread) : Except FormatError (UInt16 × Unread) :=
  match u.bytes with
  | hi :: lo :: bs => .ok (Word.ofBytes hi lo, ⟨u.offset + 2, bs⟩)
  | _ => .error (.truncated u.offset)

/-- Exactly `n` bytes. -/
def take (n : Nat) (u : Unread) : Except FormatError (Bytes × Unread) :=
  let front := u.bytes.take n
  if front.length = n then .ok (front, ⟨u.offset + n, u.bytes.drop n⟩)
  else .error (.truncated u.offset)

/-- Reads `n` items. `done` holds the items so far, the last one first. -/
def manyFrom {α : Type} (read : Unread → Except FormatError (α × Unread)) (done : List α) :
    Nat → Unread → Except FormatError (List α × Unread)
  | 0, u => .ok (done.reverse, u)
  | n + 1, u =>
    match read u with
    | .ok (x, u) => manyFrom read (x :: done) n u
    | .error e => .error e

/-- Exactly `n` items. -/
def many {α : Type} (read : Unread → Except FormatError (α × Unread)) (n : Nat) (u : Unread) :
    Except FormatError (List α × Unread) :=
  manyFrom read [] n u

/-- A list of words behind its length. -/
def words (u : Unread) : Except FormatError (List UInt16 × Unread) := do
  let (n, u) ← u.word
  u.many word n.toNat

/-- The magic word, the version and the mode. -/
def header (u : Unread) : Except FormatError (SymbolMode × Unread) := do
  let (magic, u) ← u.word
  if magic ≠ SymbolTable.magic then throw (.badMagic magic)
  let (version, u) ← u.byte
  if version ≠ SymbolTable.version then throw (.badVersion version)
  let (flag, u) ← u.byte
  match SymbolMode.ofFlag? flag with
  | some mode => return (mode, u)
  | none => throw (.badFlag flag)

/-- The length of a section, which must be the number of labels. -/
def count (sec : SymbolSection) (expected : Nat) (u : Unread) : Except FormatError Unread := do
  let (found, u) ← u.word
  if found.toNat ≠ expected then throw (.countMismatch sec expected found.toNat)
  return u

/-- A reserved section, which must be empty. -/
def reserved (sec : SymbolSection) (u : Unread) : Except FormatError Unread := do
  let (n, u) ← u.word
  if n ≠ 0 then throw (.unsupportedSection sec)
  return u

/-- The name of label `index`, behind its length in bytes. -/
def name (index : Nat) (u : Unread) : Except FormatError (String × Unread) := do
  let (n, u) ← u.word
  let (bytes, u) ← u.take n.toNat
  match String.fromUTF8? ⟨bytes.toArray⟩ with
  | some s => return (s, u)
  | none => throw (.invalidName index)

/-- The names of `n` labels. `done` holds the names so far, the last one first,
and `index` is the number of the next label. -/
def namesFrom (done : List String) (index : Nat) :
    Nat → Unread → Except FormatError (List String × Unread)
  | 0, u => .ok (done.reverse, u)
  | n + 1, u =>
    match u.name index with
    | .ok (s, u) => namesFrom (s :: done) (index + 1) n u
    | .error e => .error e

/-- The section of the names, which only debug tables have. -/
def names (mode : SymbolMode) (labels : Nat) (u : Unread) :
    Except FormatError (List String × Unread) :=
  match mode with
  | .release => .ok ([], u)
  | .debug => do
    let u ← u.count .names labels
    u.namesFrom [] 0 labels

/-- A table. -/
def table (u : Unread) : Except FormatError (SymbolTable × Unread) := do
  let (mode, u) ← u.header
  let (defines, u) ← u.words
  let labels := defines.length
  let u ← u.count .references labels
  let (references, u) ← u.many words labels
  let u ← u.reserved .externalSymbols
  let u ← u.reserved .publicSymbols
  let u ← u.reserved .extraDelta
  let (names, u) ← u.names mode labels
  return (⟨mode, defines, references, names⟩, u)

end Unread

namespace SymbolTable

/-- The table that a row of bytes encodes, with nothing behind it. -/
def decode (bytes : Bytes) : Except FormatError SymbolTable := do
  let (table, u) ← Unread.table ⟨0, bytes⟩
  if u.bytes.isEmpty then return table else throw (.trailingData u.offset)

end SymbolTable

end WordMachine
