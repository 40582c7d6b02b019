-- Disassembly loses nothing: the nodes of a row of bytes put just these bytes
-- back into an image, and data that stands together is one node. Instructions one
-- behind the other are found again, whatever follows them.
import Mathlib.Data.List.Chain
import WordMachine.Image.Disassembly
import WordMachine.Proofs.Fixups

namespace WordMachine

/-! ## The nodes that disassembly makes -/

namespace Node

/-- The node holds data. -/
def IsBinary (n : Node) : Prop := ∃ bytes, n.content = .binary bytes

/-- A node without labels: data that is not empty, or an instruction with a number. -/
structure Recovered (n : Node) : Prop where
  unlabelled : n.label = none
  not_empty : n.content ≠ .binary []
  not_uses : ∀ name, ¬ n.Uses name
  encodable : ∀ defines, n.Encodable defines

/-- The nodes found so far, the last one first: two that hold data are never
neighbours, and the last one is no data, since data waits for its end. -/
structure Found (done : List Node) : Prop where
  recovered : ∀ n ∈ done, n.Recovered
  apart : done.IsChain fun m n => ¬ (m.IsBinary ∧ n.IsBinary)
  last : ∀ n ∈ done.head?, ¬ n.IsBinary

theorem not_uses_ofInstruction (i : Instruction UInt16) (name : String) :
    ¬ (ofInstruction i).Uses name := by
  rintro ⟨j, location, hc, hj⟩
  cases hc
  cases himm : i.immediate <;> simp [himm] at hj

theorem not_isBinary_ofInstruction (i : Instruction UInt16) : ¬ (ofInstruction i).IsBinary := by
  rintro ⟨bytes, hb⟩
  cases hb

theorem recovered_ofInstruction {i : Instruction UInt16} (h : i.Fits) :
    (ofInstruction i).Recovered := by
  refine ⟨rfl, ?_, not_uses_ofInstruction i, ?_⟩
  · intro hb
    exact not_isBinary_ofInstruction i ⟨_, hb⟩
  · intro defines j hj
    cases hj
    refine ⟨?_, ?_⟩
    · intro name location hl
      exact absurd ⟨_, location, rfl, hl⟩ (not_uses_ofInstruction i name)
    · unfold Instruction.Fits at h ⊢
      rwa [Option.isSome_map]

theorem recovered_binary {bytes : Bytes} (h : bytes ≠ []) : (bare (.binary bytes)).Recovered := by
  refine ⟨rfl, ?_, ?_, ?_⟩
  · intro hb
    cases hb
    exact h rfl
  · rintro name ⟨i, location, hc, -⟩
    cases hc
  · intro defines i hc
    cases hc

theorem output_ofInstruction (defines : LabelMap UInt16) (i : Instruction UInt16) :
    (ofInstruction i).output defines = i.toBytes := by
  have hi : (⟨i.opcode, i.a, i.b, i.immediate.map Immediate.constant⟩ :
      Instruction Immediate).resolved defines = i := by
    unfold Instruction.resolved
    rw [Option.map_map]
    have : Immediate.value defines ∘ Immediate.constant = id := rfl
    rw [this, Option.map_id]
    rfl
  unfold ofInstruction bare output
  simp only [hi]

/-! ## The loop -/

theorem output_flush (defines : LabelMap UInt16) (data : Bytes) (done : List Node) :
    (flush data done).reverse.flatMap (output defines) =
      done.reverse.flatMap (output defines) ++ data.reverse := by
  unfold flush
  split
  · rename_i h
    rw [List.isEmpty_iff.1 h]
    simp
  · simp [output, bare]

/-- The nodes hold the bytes that were left and all bytes before them. -/
theorem output_disassembleFrom (defines : LabelMap UInt16) (done : List Node) (data bytes : Bytes) :
    (disassembleFrom done data bytes).flatMap (output defines) =
      done.reverse.flatMap (output defines) ++ data.reverse ++ bytes := by
  fun_induction disassembleFrom done data bytes with
  | case1 done data => rw [output_flush, List.append_nil]
  | case2 done data b bs i rest h ih =>
    obtain ⟨-, hb⟩ := Instruction.toBytes_of_read? h
    rw [ih, ← hb, List.reverse_cons, List.flatMap_append, output_flush, List.flatMap_singleton,
      output_ofInstruction]
    simp
  | case3 done data b bs h ih =>
    rw [ih, List.reverse_append, List.reverse_reverse]
    conv_rhs => rw [← List.take_append_drop 2 (b :: bs)]
    simp only [List.append_assoc]

theorem found_nil : Found [] := ⟨by simp, .nil, by simp⟩

/-- Data may stand behind the nodes found, as the last of these is no data. -/
theorem Found.flush {done : List Node} (h : Found done) (data : Bytes) :
    (∀ n ∈ flush data done, n.Recovered) ∧
      (Node.flush data done).IsChain fun m n => ¬ (m.IsBinary ∧ n.IsBinary) := by
  unfold Node.flush
  split
  · exact ⟨h.recovered, h.apart⟩
  · rename_i hd
    have hne : data.reverse ≠ [] := by simpa using hd
    refine ⟨List.forall_mem_cons.2 ⟨recovered_binary hne, h.recovered⟩, ?_⟩
    rw [List.isChain_cons]
    exact ⟨fun n hn hb => h.last n hn hb.2, h.apart⟩

theorem Found.cons_ofInstruction {done : List Node} (h : Found done) (data : Bytes)
    {i : Instruction UInt16} (hi : i.Fits) : Found (ofInstruction i :: Node.flush data done) := by
  obtain ⟨hr, ha⟩ := h.flush data
  have hn := not_isBinary_ofInstruction i
  refine ⟨List.forall_mem_cons.2 ⟨recovered_ofInstruction hi, hr⟩, ?_, ?_⟩
  · rw [List.isChain_cons]
    exact ⟨fun n _ hb => hn hb.1, ha⟩
  · intro n hm
    rw [List.head?_cons, Option.mem_some_iff] at hm
    exact hm ▸ hn

theorem found_disassembleFrom {done : List Node} (h : Found done) (data bytes : Bytes) :
    (∀ n ∈ disassembleFrom done data bytes, n.Recovered) ∧
      (disassembleFrom done data bytes).IsChain fun m n => ¬ (m.IsBinary ∧ n.IsBinary) := by
  fun_induction disassembleFrom done data bytes with
  | case1 done data =>
    obtain ⟨hr, ha⟩ := h.flush data
    refine ⟨fun n hn => hr n (List.mem_reverse.1 hn), ?_⟩
    rw [List.isChain_reverse]
    exact ha.imp fun m n hmn hnm => hmn hnm.symm
  | case2 done data b bs i rest hi ih =>
    exact ih (h.cons_ofInstruction data (Instruction.toBytes_of_read? hi).1)
  | case3 done data b bs hi ih => exact ih h

theorem output_disassemble (defines : LabelMap UInt16) (bytes : Bytes) :
    (disassemble bytes).flatMap (output defines) = bytes :=
  output_disassembleFrom defines [] [] bytes

theorem span_disassemble (bytes : Bytes) : span (disassemble bytes) = bytes.length := by
  rw [← length_outputs ∅, output_disassemble]

theorem recovered_of_mem_disassemble {bytes : Bytes} {n : Node} (h : n ∈ disassemble bytes) :
    n.Recovered :=
  (found_disassembleFrom found_nil [] bytes).1 n h

end Node

/-! ## Assembling again -/

namespace Program

variable {p : Program} (h : ∀ n ∈ p.nodes, n.Recovered)
include h

theorem defines_of_recovered : p.defines = ∅ := by
  have hd : (Placed.row p.nodes).filterMap Placed.define? = [] := by
    rw [List.filterMap_eq_nil_iff]
    intro q hq
    unfold Placed.define?
    rw [(h q.node (Placed.mem_row.1 hq).mem).unlabelled]
    rfl
  unfold defines
  rw [hd]
  rfl

theorem fixups_of_recovered : p.fixups = [] := by
  unfold fixups
  rw [List.filterMap_eq_nil_iff]
  intro q hq
  exact Placed.fixup?_eq_none_iff.2 (h q.node (Placed.mem_row.1 hq).mem).not_uses

/-- Only its length can keep a program without labels from having an image. -/
theorem compile_of_recovered : p.compile =
    if p.byteLength ≤ addressSpace then .ok p.image else .error (.programTooLarge p.byteLength) := by
  have hl : ∀ q ∈ Placed.row p.nodes, q.node.label = none :=
    fun q hq => (h q.node (Placed.mem_row.1 hq).mem).unlabelled
  split
  · rename_i hf
    refine compile_eq_ok_iff.2 ⟨⟨?_, hf, fun n hn => (h n hn).encodable p.defines⟩, rfl⟩
    intro n offset hs hlabel
    rw [(h n hs.mem).unlabelled] at hlabel
    cases hlabel
  · rename_i hf
    have hfind : (Placed.row p.nodes).find?
        (fun q => q.node.label.isSome && addressSpace ≤ q.start) = none := by
      rw [List.find?_eq_none]
      intro q hq
      simp [hl q hq]
    unfold compile checkSize
    rw [hfind]
    simp only [if_pos (Nat.lt_of_not_le hf), bind, Except.bind]

end Program

/-- All bytes that fit into memory come back from their nodes, without labels,
and more bytes are refused for their number. No node holds empty data, and no
two neighbours hold data. -/
theorem disassembly_loses_nothing (bytes : Bytes) :
    (bytes.length ≤ addressSpace →
      ∃ image, (Program.ofNodes (Node.disassemble bytes)).compile = .ok image ∧
        image.bytes = bytes ∧ image.defines = ∅ ∧ image.references = ∅ ∧
        image.relocations.sites = []) ∧
    (addressSpace < bytes.length → (Program.ofNodes (Node.disassemble bytes)).compile =
      .error (.programTooLarge bytes.length)) ∧
    (∀ n ∈ Node.disassemble bytes, n.content ≠ .binary [] ∧ n.label = none) ∧
    (Node.disassemble bytes).IsChain (fun m n => ¬ (m.IsBinary ∧ n.IsBinary)) ∧
    Node.span (Node.disassemble bytes) = bytes.length := by
  have hr : ∀ n ∈ (Program.ofNodes (Node.disassemble bytes)).nodes, n.Recovered :=
    fun n hn => Node.recovered_of_mem_disassemble hn
  have hlen : (Program.ofNodes (Node.disassemble bytes)).byteLength = bytes.length := by
    rw [Program.byteLength_eq_span]
    exact Node.span_disassemble bytes
  have hc := Program.compile_of_recovered hr
  rw [hlen] at hc
  refine ⟨?_, ?_, ?_, ?_, ?_⟩
  · intro h
    rw [if_pos h] at hc
    refine ⟨_, hc, Node.output_disassemble _ bytes, Program.defines_of_recovered hr, ?_, ?_⟩
    · unfold Program.image
      rw [Program.fixups_of_recovered hr]
      rfl
    · unfold Program.image
      rw [Program.fixups_of_recovered hr]
      rfl
  · intro h
    rw [if_neg (Nat.not_le_of_lt h)] at hc
    exact hc
  · intro n hn
    exact ⟨(hr n hn).not_empty, (hr n hn).unlabelled⟩
  · exact (Node.found_disassembleFrom Node.found_nil [] bytes).2
  · rw [← hlen]
    rfl

/-- Two instructions with a word between that is none, and an instruction that is cut
off behind them, come back. -/
theorem a_cut_off_program_comes_back :
    ∃ image, (Program.ofNodes (Node.disassemble [0xA0, 0x12, 0, 0, 0xDE, 0xAD, 0xAF, 1])).compile =
        .ok image ∧ image.bytes = [0xA0, 0x12, 0, 0, 0xDE, 0xAD, 0xAF, 1] := by
  obtain ⟨image, hc, hb, -⟩ :=
    (disassembly_loses_nothing [0xA0, 0x12, 0, 0, 0xDE, 0xAD, 0xAF, 1]).1 (by decide)
  exact ⟨image, hc, hb⟩

/-! ## Streams of instructions -/

namespace Node

/-- The node holds just this instruction: its operation, its registers and its number as a
constant. -/
structure HoldsInstruction (n : Node) (i : Instruction UInt16) : Prop where
  content : n.content = .instruction ⟨i.opcode, i.a, i.b, i.immediate.map .constant⟩
  unlabelled : n.label = none

theorem holdsInstruction_ofInstruction (i : Instruction UInt16) :
    (ofInstruction i).HoldsInstruction i := ⟨rfl, rfl⟩

theorem HoldsInstruction.not_isBinary {n : Node} {i : Instruction UInt16}
    (h : n.HoldsInstruction i) : ¬ n.IsBinary := by
  rintro ⟨bytes, hb⟩
  rw [h.content] at hb
  cases hb

theorem flush_append (data : Bytes) (done front : List Node) :
    flush data (done ++ front) = flush data done ++ front := by
  unfold flush
  split
  · rfl
  · rfl

theorem disassembleFrom_nil (done : List Node) (data : Bytes) :
    disassembleFrom done data [] = (flush data done).reverse := by
  rw [disassembleFrom]

theorem disassembleFrom_of_read? {bytes rest : Bytes} {i : Instruction UInt16}
    (h : Instruction.read? bytes = some (i, rest)) (done : List Node) (data : Bytes) :
    disassembleFrom done data bytes =
      disassembleFrom (ofInstruction i :: flush data done) [] rest := by
  cases bytes with
  | nil => cases h
  | cons b bs =>
    rw [disassembleFrom]
    split
    · rename_i h'
      rw [h] at h'
      cases h'
      rfl
    · rename_i h'
      rw [h] at h'
      cases h'

theorem disassembleFrom_of_data {b : UInt8} {bs : Bytes}
    (h : Instruction.read? (b :: bs) = none) (done : List Node) (data : Bytes) :
    disassembleFrom done data (b :: bs) =
      disassembleFrom done (((b :: bs).take 2).reverse ++ data) ((b :: bs).drop 2) := by
  rw [disassembleFrom]
  split
  · rename_i h'
    rw [h] at h'
    cases h'
  · rfl

/-- What was found before makes no difference to what is found behind it. -/
theorem disassembleFrom_append (front done : List Node) (data bytes : Bytes) :
    disassembleFrom (done ++ front) data bytes =
      front.reverse ++ disassembleFrom done data bytes := by
  -- The loop puts new nodes before `done`, so `front` stays at the far end.
  fun_induction disassembleFrom done data bytes with
  | case1 done data => rw [disassembleFrom_nil, flush_append, List.reverse_append]
  | case2 done data b bs i rest h ih =>
    rw [disassembleFrom_of_read? h, flush_append, ← List.cons_append, ih]
  | case3 done data b bs h ih => rw [disassembleFrom_of_data h, ih]

/-- An instruction at the start of a row of bytes is the first node. -/
theorem disassemble_of_read? {bytes rest : Bytes} {i : Instruction UInt16}
    (h : Instruction.read? bytes = some (i, rest)) :
    disassemble bytes = ofInstruction i :: disassemble rest := by
  have hnone : flush [] [] = [] := rfl
  unfold disassemble
  rw [disassembleFrom_of_read? h, hnone]
  exact disassembleFrom_append [ofInstruction i] [] [] rest

theorem disassemble_stream {is : List (Instruction UInt16)} (h : ∀ i ∈ is, i.Fits) (t : Bytes) :
    disassemble (is.flatMap Instruction.toBytes ++ t) =
      is.map ofInstruction ++ disassemble t := by
  induction is with
  | nil => rfl
  | cons i is ih =>
    obtain ⟨hi, his⟩ := List.forall_mem_cons.1 h
    rw [List.flatMap_cons, List.append_assoc, disassemble_of_read? (Instruction.read?_toBytes hi _),
      ih his]
    rfl

end Node

/-- Instructions one behind the other are recovered, each as a node of its own. If more bytes
follow, their nodes follow. -/
theorem a_stream_of_instructions_is_recovered (is : List (Instruction UInt16))
    (h : ∀ i ∈ is, i.check = .ok i) :
    ∃ nodes, List.Forall₂ Node.HoldsInstruction nodes is ∧ (∀ n ∈ nodes, ¬ n.IsBinary) ∧
      Node.disassemble (is.flatMap Instruction.toBytes) = nodes ∧
      ∀ t, Node.disassemble (is.flatMap Instruction.toBytes ++ t) =
        nodes ++ Node.disassemble t := by
  have hfits : ∀ i ∈ is, i.Fits := fun i hi => (Instruction.check_eq_ok_iff.1 (h i hi)).1
  have hnone : Node.disassemble [] = [] := Node.disassembleFrom_nil [] []
  have hall := Node.disassemble_stream hfits []
  rw [hnone, List.append_nil, List.append_nil] at hall
  refine ⟨is.map Node.ofInstruction, ?_, ?_, hall, Node.disassemble_stream hfits⟩
  · rw [List.forall₂_map_left_iff, List.forall₂_same]
    exact fun i _ => Node.holdsInstruction_ofInstruction i
  · intro n hn
    obtain ⟨i, -, rfl⟩ := List.mem_map.1 hn
    exact (Node.holdsInstruction_ofInstruction i).not_isBinary

/-- A jump to an address that is the code of a jump, and an instruction with two registers. -/
def jumpAndAdd : List (Instruction UInt16) :=
  [⟨.jump, none, none, some 0xDEAA⟩, ⟨.arith .add, some .b, some .sp, none⟩]

theorem a_jump_to_the_code_of_a_jump_is_recovered :
    (∀ i ∈ jumpAndAdd, i.check = .ok i) ∧
      jumpAndAdd.flatMap Instruction.toBytes = [0xDE, 0xAA, 0xDE, 0xAA, 0xA0, 0x1F] ∧
      ∃ nodes, List.Forall₂ Node.HoldsInstruction nodes jumpAndAdd ∧
        Node.disassemble (jumpAndAdd.flatMap Instruction.toBytes ++ [0xDE]) =
          nodes ++ Node.disassemble [0xDE] := by
  have hcheck : ∀ i ∈ jumpAndAdd, i.check = .ok i := by decide +kernel
  have hbytes : jumpAndAdd.flatMap Instruction.toBytes = [0xDE, 0xAA, 0xDE, 0xAA, 0xA0, 0x1F] := by
    decide +kernel
  obtain ⟨nodes, hnodes, -, -, hstream⟩ := a_stream_of_instructions_is_recovered jumpAndAdd hcheck
  exact ⟨hcheck, hbytes, nodes, hnodes, hstream [0xDE]⟩

end WordMachine
