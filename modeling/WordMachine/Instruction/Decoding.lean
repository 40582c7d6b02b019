-- Decoding of instruction words.
import WordMachine.Instruction.Basic

namespace WordMachine

/-- A word that is no instruction word. -/
structure InvalidOpcode where
  word : UInt16
  deriving DecidableEq, Repr

/-- The text of an invalid opcode. -/
def InvalidOpcode.message (e : InvalidOpcode) : String :=
  "invalid opcode 0x" ++ Text.hexWord e.word

namespace Instruction

/-- The instruction that a word encodes, without its immediate. Operations
without registers are looked for first, then those with one register, whose
low four bits are free, then those with two, whose low eight bits are free. -/
def decode (w : UInt16) : Except InvalidOpcode (Instruction UInt16) :=
  match Opcode.ofPattern? 0 w with
  | some op => .ok ⟨op, none, none, none⟩
  | none =>
    match Opcode.ofPattern? 1 (w &&& 0xFFF0) with
    | some op => .ok ⟨op, some (.ofNibble w), none, none⟩
    | none =>
      match Opcode.ofPattern? 2 (w &&& 0xFF00) with
      | some op => .ok ⟨op, some (.ofNibble (w >>> 4)), some (.ofNibble w), none⟩
      | none => .error ⟨w⟩

/-- The immediate of an instruction, taken from the front of a row of bytes. -/
def readImmediate? (i : Instruction UInt16) (bytes : Bytes) : Option (Instruction UInt16 × Bytes) :=
  if i.opcode.shape.takesImmediate then
    match bytes with
    | hi :: lo :: rest => some ({ i with immediate := some (Word.ofBytes hi lo) }, rest)
    | _ => none
  else some (i, bytes)

/-- The instruction at the front of a row of bytes, and the bytes behind it. -/
def read? : Bytes → Option (Instruction UInt16 × Bytes)
  | hi :: lo :: rest =>
    match decode (Word.ofBytes hi lo) with
    | .ok i => i.readImmediate? rest
    | .error _ => none
  | _ => none

theorem length_readImmediate? {i : Instruction UInt16} {bytes : Bytes}
    {r : Instruction UInt16 × Bytes} (h : i.readImmediate? bytes = some r) :
    r.2.length ≤ bytes.length := by
  unfold readImmediate? at h
  repeat' split at h
  all_goals cases h
  · simp only [List.length_cons]
    omega
  · exact Nat.le_refl _

theorem length_read? {bytes : Bytes} {r : Instruction UInt16 × Bytes}
    (h : read? bytes = some r) : r.2.length + 2 ≤ bytes.length := by
  unfold read? at h
  repeat' split at h
  · have := length_readImmediate? h
    simp only [List.length_cons]
    omega
  · cases h
  · cases h

end Instruction

end WordMachine
