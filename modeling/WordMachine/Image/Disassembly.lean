-- Disassembly: nodes for a row of bytes. Words that are no instructions,
-- instructions whose immediate is cut off and a last odd byte are data.
import WordMachine.Image.Basic
import WordMachine.Instruction.Decoding
import WordMachine.Program.Node

namespace WordMachine

namespace Node

/-- A node without label and place. -/
def bare (content : Content) : Node := ⟨content, none, .start⟩

/-- The node of a decoded instruction. -/
def ofInstruction (i : Instruction UInt16) : Node :=
  bare (.instruction ⟨i.opcode, i.a, i.b, i.immediate.map .constant⟩)

/-- Puts the data that was found before `done`, of which the last node comes
first. The last byte of the data comes first, too. -/
def flush (data : Bytes) (done : List Node) : List Node :=
  if data.isEmpty then done else bare (.binary data.reverse) :: done

/-- The nodes of a row of bytes, behind those of `done`. `data` holds the bytes
since the last instruction, the last one first. -/
def disassembleFrom (done : List Node) (data : Bytes) (bytes : Bytes) : List Node :=
  match bytes with
  | [] => (flush data done).reverse
  | b :: bs =>
    match _h : Instruction.read? (b :: bs) with
    | some (i, rest) => disassembleFrom (ofInstruction i :: flush data done) [] rest
    | none => disassembleFrom done (((b :: bs).take 2).reverse ++ data) ((b :: bs).drop 2)
termination_by bytes.length
decreasing_by
  · have := Instruction.length_read? ‹_›
    simp only [List.length_cons] at this ⊢
    omega
  · simp only [List.length_drop, List.length_cons]
    omega

/-- The nodes of a row of bytes. -/
def disassemble (bytes : Bytes) : List Node := disassembleFrom [] [] bytes

end Node

/-- The nodes of the bytes of an image. The labels are not recovered. -/
def Image.disassemble (image : Image) : List Node := Node.disassemble image.bytes

end WordMachine
