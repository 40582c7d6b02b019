-- The offsets of words for addresses. The compiler computes such an offset before it looks
-- at the operands of the instruction, so an operation that takes no immediate but is given
-- a label can stand where no word follows any more. There, and nowhere else, the offset is
-- too large for a word.
import WordMachine.Proofs.Failures

namespace WordMachine

/-! ## Nodes that the compiler comes to -/

theorem Node.length_of_mapM_encode {defines : LabelMap UInt16} {nodes : List Node}
    {chunks : List Bytes} (hf : span nodes ≤ addressSpace)
    (h : (Placed.row nodes).mapM (Placed.encode defines) = .ok chunks) :
    chunks.flatten.length = span nodes := by
  obtain ⟨-, rfl⟩ := (mapM_encode_eq_ok_iff hf chunks).1 h
  exact length_outputs defines nodes

namespace Program

variable {p : Program}

theorem span_le_of_checkSize {before after : List Node} (h : p.checkSize = .ok ())
    (hn : p.nodes = before ++ after) : Node.span before ≤ addressSpace := by
  have hl := ((checkSize_eq_ok_iff p).1 h).2
  rw [byteLength_eq_span, hn, Node.span_append] at hl
  omega

/-- The compiler comes to a node when `offset` bytes are emitted: it has accepted the size
of the program and encoded the nodes before. -/
def Reaches (p : Program) (n : Node) (offset : Nat) : Prop :=
  p.checkSize = .ok () ∧ ∃ before after chunks, p.nodes = before ++ n :: after ∧
    (Placed.row before).mapM (Placed.encode p.defines) = .ok chunks ∧
    chunks.flatten.length = offset

/-- The number of bytes emitted is the offset of the node. -/
theorem reaches_iff {n : Node} {offset : Nat} :
    p.Reaches n offset ↔ p.checkSize = .ok () ∧ ∃ before after,
      p.nodes = before ++ n :: after ∧ (∀ m ∈ before, m.Encodable p.defines) ∧
      Node.span before = offset := by
  unfold Reaches
  apply and_congr_right
  intro hsize
  constructor
  · rintro ⟨before, after, chunks, hn, hc, ho⟩
    have hf := span_le_of_checkSize hsize hn
    exact ⟨before, after, hn, ((mapM_encode_eq_ok_iff hf chunks).1 hc).1,
      by rw [← ho, Node.length_of_mapM_encode hf hc]⟩
  · rintro ⟨before, after, hn, he, ho⟩
    have hf := span_le_of_checkSize hsize hn
    have hc := (mapM_encode_eq_ok_iff hf (before.map (Node.output p.defines))).2 ⟨he, rfl⟩
    exact ⟨before, after, _, hn, hc, by rw [Node.length_of_mapM_encode hf hc, ho]⟩

/-- The compiler comes to a node in a row just if it has encoded the row before. -/
theorem reaches_iff_row {q : Placed} :
    p.Reaches q.node q.start ↔ p.checkSize = .ok () ∧ ∃ before after,
      Placed.row p.nodes = before ++ q :: after ∧
      ∃ chunks, before.mapM (Placed.encode p.defines) = .ok chunks := by
  apply and_congr_right
  intro hsize
  rw [Placed.exists_row_split_iff]
  constructor
  · rintro ⟨before, after, chunks, hn, hc, ho⟩
    rw [Node.length_of_mapM_encode (span_le_of_checkSize hsize hn) hc] at ho
    exact ⟨before, after, hn, ho, chunks, hc⟩
  · rintro ⟨before, after, hn, hs, chunks, hc⟩
    refine ⟨before, after, chunks, hn, hc, ?_⟩
    rw [Node.length_of_mapM_encode (span_le_of_checkSize hsize hn) hc, hs]

theorem Reaches.standsAt {n : Node} {offset : Nat} (h : p.Reaches n offset) :
    Node.StandsAt p.nodes n offset := by
  obtain ⟨-, before, after, hn, -, ho⟩ := reaches_iff.1 h
  exact ⟨before, after, hn, ho⟩

theorem Reaches.fits {n : Node} {offset : Nat} (h : p.Reaches n offset) :
    offset + n.byteLength ≤ addressSpace :=
  Nat.le_trans h.standsAt.fits ((checkSize_eq_ok_iff p).1 h.1).2

theorem compile_eq_error_iff {e : CompileError} : p.compile = .error e ↔
    p.checkSize = .error e ∨
      ∃ q : Placed, p.Reaches q.node q.start ∧ q.encode p.defines = .error e := by
  unfold compile
  rw [bind_eq_error_iff]
  apply or_congr_right
  constructor
  · rintro ⟨⟨⟩, hsize, h⟩
    rw [bind_eq_error_iff, mapM_eq_error_iff] at h
    rcases h with ⟨before, q, after, chunks, hrow, hc, hq⟩ | ⟨chunks, -, h⟩
    · exact ⟨q, reaches_iff_row.2 ⟨hsize, before, after, hrow, chunks, hc⟩, hq⟩
    · cases h
  · rintro ⟨q, hr, hq⟩
    obtain ⟨hsize, before, after, hrow, chunks, hc⟩ := reaches_iff_row.1 hr
    refine ⟨(), hsize, ?_⟩
    rw [bind_eq_error_iff, mapM_eq_error_iff]
    exact .inl ⟨before, q, after, chunks, hrow, hc, hq⟩

/-- The compiler breaks down just if it comes to an instruction with a label that has an
address, but with no offset for that address behind it. -/
theorem compile_eq_overflow_iff {start : Nat} :
    p.compile = .error (.siteOverflow start) ↔ addressSpace ≤ start + 2 ∧
      ∃ n, p.Reaches n start ∧ ∃ name, n.Uses name ∧ name ∈ p.defines := by
  rw [compile_eq_error_iff]
  constructor
  · rintro (h | ⟨q, hr, hq⟩)
    · -- A program without room is refused for its size.
      unfold checkSize at h
      repeat' split at h
      all_goals cases h
    · rcases Placed.encode_eq_error_iff.1 hq with ⟨⟨hle, hu⟩, he⟩ | ⟨-, ho⟩
      · cases he
        exact ⟨hle, q.node, hr, hu⟩
      · cases ho
  · rintro ⟨hle, n, hr, hu⟩
    exact .inr ⟨⟨start, n⟩, hr, Placed.encode_of_overflows ⟨hle, hu⟩⟩

end Program

/-! ## The last word -/

/-- An instruction that uses a label takes a word at least. -/
theorem Node.two_le_byteLength_of_uses {n : Node} {name : String} (h : n.Uses name) :
    2 ≤ n.byteLength := by
  obtain ⟨i, location, hc, -⟩ := h
  simp only [byteLength, hc, Content.byteLength, Instruction.byteLength, Opcode.byteLength,
    Shape.byteLength]
  split
  · omega
  · omega

namespace Program

/-- An instruction without an offset for an address stands in the last word, and its
operands do not fit. -/
theorem Reaches.of_no_site {p : Program} {n : Node} {offset : Nat} {name : String}
    (h : p.Reaches n offset) (hu : n.Uses name) (hs : addressSpace ≤ offset + 2) :
    offset = 0xFFFE ∧ ¬ n.Encodable p.defines := by
  have hf : offset + n.byteLength ≤ 65536 := h.fits
  have h2 := Node.two_le_byteLength_of_uses hu
  have hs' : 65536 ≤ offset + 2 := hs
  refine ⟨by omega, fun he => ?_⟩
  have h4 := Node.byteLength_of_uses he hu
  omega

/-- The compiler breaks down only over an instruction in the last word. -/
theorem isReport_of_compile_iff {p : Program} :
    (∀ e, p.compile = .error e → e.isReport) ↔
      ¬ ∃ n name, p.Reaches n 0xFFFE ∧ n.Uses name ∧ name ∈ p.defines := by
  constructor
  · rintro h ⟨n, name, hr, hu, hm⟩
    have hc := compile_eq_overflow_iff.2 ⟨Nat.le_refl addressSpace, n, hr, name, hu, hm⟩
    exact absurd (h _ hc) (by decide)
  · rintro h (⟨name, location⟩ | ⟨mismatch, location⟩ | size | start) he
    · rfl
    · rfl
    · rfl
    · obtain ⟨hs, n, hr, name, hu, hm⟩ := compile_eq_overflow_iff.1 he
      obtain ⟨rfl, -⟩ := hr.of_no_site hu hs
      exact absurd ⟨n, name, hr, hu, hm⟩ h

end Program

/-- The offset of the word for an address is a word, but not for an instruction in the last
word of the address space whose operation takes no immediate. Such an instruction breaks
the compiler down; all other programs are compiled or refused, and so is each program whose
instructions have operands that fit. -/
theorem a_site_overflows_only_in_the_last_word (p : Program) :
    (∀ n offset name, p.Reaches n offset → n.Uses name →
      offset + 2 ≤ 0xFFFF ∨ offset = 0xFFFE ∧ ¬ n.Encodable p.defines) ∧
    ((∀ e, p.compile = .error e → e.isReport) ↔
      ¬ ∃ n name, p.Reaches n 0xFFFE ∧ n.Uses name ∧ name ∈ p.defines) ∧
    ((∀ n ∈ p.nodes, ∀ i, n.content = .instruction i → i.Fits) →
      ∀ e, p.compile = .error e → e.isReport) := by
  refine ⟨?_, Program.isReport_of_compile_iff, ?_⟩
  · intro n offset name hr hu
    by_cases hs : addressSpace ≤ offset + 2
    · exact .inr (hr.of_no_site hu hs)
    · have hs' : ¬ 65536 ≤ offset + 2 := hs
      exact .inl (by omega)
  · intro hfits
    rw [Program.isReport_of_compile_iff]
    rintro ⟨n, name, hr, hu, hm⟩
    -- The operands fit and the label has an address, so the node could be encoded.
    refine (hr.of_no_site hu (Nat.le_refl addressSpace)).2 fun i hc => ?_
    refine ⟨fun used location hi => ?_, hfits n hr.standsAt.mem i hc⟩
    obtain ⟨j, place, hj, hji⟩ := hu
    rw [hc] at hj
    cases hj
    rw [hi] at hji
    cases hji
    exact hm

/-- A label at address zero before data up to the last word. -/
def labelledData : Node := ⟨.binary (List.replicate 0xFFFE 0), some ⟨"x", .start⟩, .start⟩

/-- An instruction that takes no operand and is given a label. -/
def labelledNop : Node := ⟨.instruction ⟨.nop, none, none, some (.label "x" .start)⟩, none, .start⟩

/-- An instruction in the last word, with an immediate that does not belong there. -/
def lastWord : Program := .ofNodes [labelledData, labelledNop]

theorem byteLength_labelledData : labelledData.byteLength = 0xFFFE := List.length_replicate

theorem span_lastWord : Node.span lastWord.nodes = addressSpace := by
  have hn : lastWord.nodes = [labelledData, labelledNop] := rfl
  have h2 : labelledNop.byteLength = 2 := rfl
  rw [hn, Node.span_cons, Node.span_cons, Node.span_nil, byteLength_labelledData, h2]
  rfl

theorem labelsReachable_lastWord : lastWord.LabelsReachable := by
  intro n offset hs hl
  have hf := hs.fits
  rw [span_lastWord] at hf
  -- Only the data has a label, and nothing but the last word fits behind it.
  have hn : n ∈ [labelledData, labelledNop] := hs.mem
  rw [List.mem_pair] at hn
  rcases hn with rfl | rfl
  · rw [byteLength_labelledData] at hf
    omega
  · cases hl

theorem reaches_lastWord : lastWord.Reaches labelledNop 0xFFFE := by
  have hsize := (Program.checkSize_eq_ok_iff lastWord).2
    ⟨labelsReachable_lastWord, Nat.le_of_eq span_lastWord⟩
  refine Program.reaches_iff.2 ⟨hsize, [labelledData], [], rfl, ?_, ?_⟩
  · intro m hm i hc
    rw [List.mem_singleton.1 hm] at hc
    cases hc
  · rw [Node.span_cons, Node.span_nil, Nat.add_zero, byteLength_labelledData]

theorem mem_defines_lastWord : "x" ∈ lastWord.defines :=
  Program.mem_defines_iff.2 (List.mem_singleton.2 rfl)

theorem labelledNop_uses : labelledNop.Uses "x" := ⟨_, _, rfl, rfl⟩

theorem an_instruction_in_the_last_word_is_not_reported :
    lastWord.Reaches labelledNop 0xFFFE ∧ labelledNop.Uses "x" ∧ "x" ∈ lastWord.defines ∧
      ¬ labelledNop.Encodable lastWord.defines ∧
      ¬ ∀ e, lastWord.compile = .error e → e.isReport := by
  have h := a_site_overflows_only_in_the_last_word lastWord
  have hsite := h.1 labelledNop 0xFFFE "x" reaches_lastWord labelledNop_uses
  refine ⟨reaches_lastWord, labelledNop_uses, mem_defines_lastWord,
    (hsite.resolve_left (by decide)).2, ?_⟩
  rw [h.2.1]
  exact not_not_intro
    ⟨labelledNop, "x", reaches_lastWord, labelledNop_uses, mem_defines_lastWord⟩

theorem the_compiler_breaks_down_over_the_last_word :
    lastWord.compile = .error (.siteOverflow 0xFFFE) :=
  Program.compile_eq_overflow_iff.2 ⟨Nat.le_refl addressSpace, labelledNop, reaches_lastWord,
    "x", labelledNop_uses, mem_defines_lastWord⟩

end WordMachine
