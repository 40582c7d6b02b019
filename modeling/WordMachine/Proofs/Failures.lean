-- Failures of encoding: why a node has no bytes. A label without an address is found first,
-- then an offset that is too large for a word, and only then operands that do not fit.
import WordMachine.Proofs.Fixups
import WordMachine.Proofs.Outcomes

namespace WordMachine

/-! ## Instructions -/

namespace Instruction

variable {defines : LabelMap UInt16} {start : Nat} {location place : Location}
  {i : Instruction Immediate} {name : String}

theorem encode_of_unresolved (hi : i.immediate = some (.label name place))
    (hn : name ∉ defines) :
    i.encode defines start location = .error (.unresolvedLabel name place) := by
  have hnone : defines[name]? = none := Std.ExtTreeMap.getElem?_eq_none hn
  unfold encode
  rw [hi, Option.mapM_some]
  simp only [Immediate.resolve, hnone]
  rfl

theorem encode_of_overflow (hi : i.immediate = some (.label name place)) (hn : name ∈ defines)
    (hs : addressSpace ≤ start + 2) :
    i.encode defines start location = .error (.siteOverflow start) := by
  obtain ⟨address, ha⟩ :=
    Option.isSome_iff_exists.1 (Std.ExtTreeMap.mem_iff_isSome_getElem?.1 hn)
  unfold encode
  rw [hi, Option.mapM_some]
  simp only [Immediate.resolve, ha, if_neg (Nat.not_lt.2 hs)]
  rfl

/-- Once the immediate is known, only the operands are looked at. -/
theorem encode_of_linked (hl : i.Linked defines) (hs : i.HasSite start) :
    i.encode defines start location =
      if i.Fits then .ok (i.resolved defines).toBytes
      else .error (.invalidOperands ⟨i.opcode⟩ location) := by
  have hcheck : (i.resolved defines).check =
      if i.Fits then .ok (i.resolved defines) else .error ⟨i.opcode⟩ := by
    unfold check
    simp only [fits_resolved]
    rfl
  have hres : (⟨i.opcode, i.a, i.b, i.immediate.map (Immediate.value defines)⟩ :
      Instruction UInt16) = i.resolved defines := rfl
  unfold encode
  rw [mapM_resolve_eq_ok_iff.2 ⟨⟨hl, hs⟩, rfl⟩]
  simp only [hres, hcheck]
  by_cases hf : i.Fits
  · simp only [if_pos hf]
  · simp only [if_neg hf]

end Instruction

/-! ## Nodes -/

/-- What is wrong with a node that cannot be encoded. Its operands count only if its label
has an address. -/
inductive Node.Offends (defines : LabelMap UInt16) (n : Node) : CompileError → Prop
  | unresolved {i : Instruction Immediate} {name : String} {place : Location}
      (hc : n.content = .instruction i) (hi : i.immediate = some (.label name place))
      (hn : name ∉ defines) : Offends defines n (.unresolvedLabel name place)
  | mismatch {i : Instruction Immediate} (hc : n.content = .instruction i)
      (hl : i.Linked defines) (hf : ¬ i.Fits) :
      Offends defines n (.invalidOperands ⟨i.opcode⟩ n.location)

/-- A node can be encoded just if nothing is wrong with it. -/
theorem Node.encodable_iff {defines : LabelMap UInt16} {n : Node} :
    n.Encodable defines ↔ ∀ e, ¬ n.Offends defines e := by
  constructor
  · rintro h e (⟨hc, hi, hn⟩ | ⟨hc, -, hf⟩)
    · exact hn ((h _ hc).1 _ _ hi)
    · exact hf (h _ hc).2
  · intro h i hc
    have hl : i.Linked defines := by
      intro name place hi
      exact Decidable.byContradiction fun hn => h _ (.unresolved hc hi hn)
    exact ⟨hl, Decidable.byContradiction fun hf => h _ (.mismatch hc hl hf)⟩

namespace Placed

variable {defines : LabelMap UInt16} {q : Placed} {e : CompileError}

/-- The label of the node has an address, but the offset of the word for it is no word. -/
def Overflows (defines : LabelMap UInt16) (q : Placed) : Prop :=
  addressSpace ≤ q.start + 2 ∧ ∃ name, q.node.Uses name ∧ name ∈ defines

theorem hasSite_of_linked {i : Instruction Immediate} (hc : q.node.content = .instruction i)
    (hl : i.Linked defines) (h : ¬ q.Overflows defines) : i.HasSite q.start := by
  intro name place hi
  apply Nat.lt_of_not_le
  intro hs
  exact h ⟨hs, name, ⟨i, place, hc, hi⟩, hl name place hi⟩

theorem encode_of_overflows (h : q.Overflows defines) :
    q.encode defines = .error (.siteOverflow q.start) := by
  obtain ⟨hs, name, ⟨i, place, hc, hi⟩, hn⟩ := h
  unfold encode
  rw [hc]
  exact Instruction.encode_of_overflow hi hn hs

theorem encode_of_offends (h : ¬ q.Overflows defines) (ho : q.node.Offends defines e) :
    q.encode defines = .error e := by
  unfold encode
  cases ho with
  | unresolved hc hi hn =>
    rw [hc]
    exact Instruction.encode_of_unresolved hi hn
  | mismatch hc hl hf =>
    rw [hc]
    simp only
    rw [Instruction.encode_of_linked hl (hasSite_of_linked hc hl h), if_neg hf]

/-- A node in a row has no bytes because of the offset of the word for its address or else
because of what is wrong with it. -/
theorem encode_eq_error_iff : q.encode defines = .error e ↔
    (q.Overflows defines ∧ e = .siteOverflow q.start) ∨
      (¬ q.Overflows defines ∧ q.node.Offends defines e) := by
  by_cases h : q.Overflows defines
  · simp [h, encode_of_overflows h, eq_comm]
  · simp only [h, false_and, false_or, not_false_iff, true_and]
    constructor
    · intro he
      -- Without an offence the node would have bytes.
      have hn : ¬ q.node.Encodable defines := by
        intro hn
        have hs : q.HasSite := fun i hc => hasSite_of_linked hc (hn i hc).1 h
        rw [encode_eq_ok_iff.2 ⟨⟨hn, hs⟩, rfl⟩] at he
        cases he
      rw [Node.encodable_iff, not_forall_not] at hn
      obtain ⟨e', ho⟩ := hn
      rw [encode_of_offends h ho] at he
      cases he
      exact ho
    · exact encode_of_offends h

end Placed

end WordMachine
