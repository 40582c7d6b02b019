-- The verdict of the compiler: which programs have an image, and what is said about the
-- others. A program without room is refused for its size, whatever else is wrong with it,
-- and any other one for its first node that cannot be encoded.
import WordMachine.Proofs.SiteOverflow

namespace WordMachine.Program

variable {p : Program}

/-! ## Programs without room -/

/-- The size for which a program has no room: the offset of its first label without an
address or, if all labels have one, the number of its bytes. -/
def TooLarge (p : Program) (size : Nat) : Prop :=
  (∃ before n after, p.nodes = before ++ n :: after ∧ (ofNodes before).LabelsReachable ∧
    n.label.isSome ∧ addressSpace ≤ Node.span before ∧ size = Node.span before) ∨
  (p.LabelsReachable ∧ addressSpace < p.byteLength ∧ size = p.byteLength)

/-- The node has a label, but stands behind the last address. -/
def Unreachable (q : Placed) : Bool := q.node.label.isSome && addressSpace ≤ q.start

theorem unreachable_iff {q : Placed} :
    Unreachable q = true ↔ q.node.label.isSome ∧ addressSpace ≤ q.start := by
  unfold Unreachable
  rw [Bool.and_eq_true, decide_eq_true_eq]

theorem labelsReachable_iff_row :
    p.LabelsReachable ↔ ∀ q ∈ Placed.row p.nodes, ¬ Unreachable q = true := by
  simp only [unreachable_iff, not_and, Nat.not_le]
  constructor
  · intro h q hq hl
    exact h q.node q.start (Placed.mem_row.1 hq) hl
  · intro h n offset hs hl
    exact h ⟨offset, n⟩ (Placed.mem_row.2 hs) hl

theorem checkSize_of_labelsReachable (h : p.LabelsReachable) : p.checkSize =
    if addressSpace < p.byteLength then .error (.programTooLarge p.byteLength) else .ok () := by
  have hf : (Placed.row p.nodes).find? (fun q => q.node.label.isSome && addressSpace ≤ q.start) =
      none := List.find?_eq_none.2 (labelsReachable_iff_row.1 h)
  unfold checkSize
  rw [hf]

/-- The first label without an address is reported with its offset. -/
theorem checkSize_of_unreachable {before after : List Node} {n : Node}
    (hn : p.nodes = before ++ n :: after) (hb : (ofNodes before).LabelsReachable)
    (hl : n.label.isSome) (ha : addressSpace ≤ Node.span before) :
    p.checkSize = .error (.programTooLarge (Node.span before)) := by
  let q : Placed := ⟨Node.span before, n⟩
  have hsplit : ∃ front back, Placed.row p.nodes = front ++ q :: back ∧
      ∀ r ∈ front, (!Unreachable r) = true := by
    rw [Placed.exists_row_split_iff (P := fun front => ∀ r ∈ front, (!Unreachable r) = true)]
    refine ⟨before, after, hn, rfl, fun r hr => ?_⟩
    simpa using labelsReachable_iff_row.1 hb r hr
  have hf : (Placed.row p.nodes).find? (fun q => q.node.label.isSome && addressSpace ≤ q.start) =
      some q := List.find?_eq_some_iff_append.2 ⟨unreachable_iff.2 ⟨hl, ha⟩, hsplit⟩
  unfold checkSize
  rw [hf]

theorem exists_unreachable (h : ¬ p.LabelsReachable) : ∃ before n after,
    p.nodes = before ++ n :: after ∧ (ofNodes before).LabelsReachable ∧ n.label.isSome ∧
      addressSpace ≤ Node.span before := by
  cases hf : (Placed.row p.nodes).find? Unreachable with
  | none => exact absurd (labelsReachable_iff_row.2 (List.find?_eq_none.1 hf)) h
  | some q =>
    obtain ⟨hq, hsplit⟩ := List.find?_eq_some_iff_append.1 hf
    rw [Placed.exists_row_split_iff
      (P := fun front => ∀ r ∈ front, (!Unreachable r) = true)] at hsplit
    obtain ⟨before, after, hn, hs, hb⟩ := hsplit
    obtain ⟨hl, ha⟩ := unreachable_iff.1 hq
    refine ⟨before, q.node, after, hn, labelsReachable_iff_row.2 fun r hr => ?_, hl, hs ▸ ha⟩
    simpa using hb r hr

theorem checkSize_eq_error_iff {e : CompileError} :
    p.checkSize = .error e ↔ ∃ size, e = .programTooLarge size ∧ p.TooLarge size := by
  constructor
  · intro he
    by_cases h : p.LabelsReachable
    · rw [checkSize_of_labelsReachable h] at he
      split at he
      · rename_i hlt
        cases he
        exact ⟨_, rfl, .inr ⟨h, hlt, rfl⟩⟩
      · cases he
    · obtain ⟨before, n, after, hn, hb, hl, ha⟩ := exists_unreachable h
      rw [checkSize_of_unreachable hn hb hl ha] at he
      cases he
      exact ⟨_, rfl, .inl ⟨before, n, after, hn, hb, hl, ha, rfl⟩⟩
  · rintro ⟨size, rfl, ⟨before, n, after, hn, hb, hl, ha, rfl⟩ | ⟨h, hlt, rfl⟩⟩
    · exact checkSize_of_unreachable hn hb hl ha
    · rw [checkSize_of_labelsReachable h, if_pos hlt]

/-- A program has no room just if a label has no address or there are too many bytes. -/
theorem exists_tooLarge_iff :
    (∃ size, p.TooLarge size) ↔ ¬ p.LabelsReachable ∨ addressSpace < p.byteLength := by
  rw [← Nat.not_le, ← not_and_or, ← checkSize_eq_ok_iff]
  constructor
  · rintro ⟨size, h⟩ hok
    rw [checkSize_eq_error_iff.2 ⟨size, rfl, h⟩] at hok
    cases hok
  · intro h
    cases hc : p.checkSize with
    | ok u => exact absurd hc h
    | error e =>
      obtain ⟨size, -, hs⟩ := checkSize_eq_error_iff.1 hc
      exact ⟨size, hs⟩

/-! ## Programs with room -/

theorem compile_eq_tooLarge_iff {size : Nat} :
    p.compile = .error (.programTooLarge size) ↔ p.TooLarge size := by
  rw [compile_eq_error_iff, checkSize_eq_error_iff]
  constructor
  · rintro (⟨_, he, h⟩ | ⟨q, -, hq⟩)
    · cases he
      exact h
    · rcases Placed.encode_eq_error_iff.1 hq with ⟨-, he⟩ | ⟨-, ho⟩
      · cases he
      · cases ho
  · intro h
    exact .inl ⟨size, rfl, h⟩

/-- What is wrong with the first node that cannot be encoded. -/
def FirstFault (p : Program) (e : CompileError) : Prop :=
  ∃ before n after, p.nodes = before ++ n :: after ∧
    (∀ m ∈ before, ∀ e', ¬ m.Offends p.defines e') ∧ n.Offends p.defines e

/-- The compiler comes to the first node that cannot be encoded. -/
theorem firstFault_iff (hsize : p.checkSize = .ok ()) {e : CompileError} :
    p.FirstFault e ↔ ∃ q : Placed, p.Reaches q.node q.start ∧ q.node.Offends p.defines e := by
  constructor
  · rintro ⟨before, n, after, hn, hb, ho⟩
    refine ⟨⟨Node.span before, n⟩, reaches_iff.2 ⟨hsize, before, after, hn, ?_, rfl⟩, ho⟩
    exact fun m hm => Node.encodable_iff.2 (hb m hm)
  · rintro ⟨q, hr, ho⟩
    obtain ⟨-, before, after, hn, hb, -⟩ := reaches_iff.1 hr
    exact ⟨before, q.node, after, hn, fun m hm => Node.encodable_iff.1 (hb m hm), ho⟩

/-- A program with room that is refused is refused for its first fault. -/
theorem firstFault_of_compile (hsize : p.checkSize = .ok ()) {e : CompileError}
    (hc : p.compile = .error e) (he : e.isReport) : p.FirstFault e := by
  rcases compile_eq_error_iff.1 hc with h | ⟨q, hr, hq⟩
  · rw [hsize] at h
    cases h
  · rcases Placed.encode_eq_error_iff.1 hq with ⟨-, rfl⟩ | ⟨-, ho⟩
    · cases he
    · exact (firstFault_iff hsize).2 ⟨q, hr, ho⟩

/-- The compiler reports the first fault, or it breaks down over the node that has it. -/
theorem compile_of_firstFault (hsize : p.checkSize = .ok ()) {e : CompileError}
    (h : p.FirstFault e) :
    p.compile = .error e ∨ p.compile = .error (.siteOverflow 0xFFFE) := by
  obtain ⟨q, hr, ho⟩ := (firstFault_iff hsize).1 h
  by_cases hover : q.Overflows p.defines
  · obtain ⟨hs, name, hu, hn⟩ := hover
    obtain ⟨hstart, -⟩ := hr.of_no_site hu hs
    rw [← hstart]
    exact .inr (compile_eq_overflow_iff.2 ⟨hs, q.node, hr, name, hu, hn⟩)
  · exact .inl (compile_eq_error_iff.2 (.inr ⟨q, hr, Placed.encode_of_offends hover ho⟩))

/-- A program has an image just if it has room, its labels are defined and the operands of
its instructions fit. -/
theorem exists_image_iff : (∃ image, p.compile = .ok image) ↔
    p.byteLength ≤ addressSpace ∧ p.LabelsReachable ∧
      (∀ n ∈ p.nodes, ∀ name, n.Uses name → name ∈ Node.labelNames p.nodes) ∧
      ∀ n ∈ p.nodes, ∀ i, n.content = .instruction i → i.Fits := by
  simp only [compile_eq_ok_iff, exists_and_left, exists_eq, and_true]
  constructor
  · rintro ⟨hr, hl, he⟩
    refine ⟨hl, hr, ?_, fun n hn i hc => (he n hn i hc).2⟩
    rintro n hn name ⟨i, place, hc, hi⟩
    exact mem_defines_iff.1 ((he n hn i hc).1 name place hi)
  · rintro ⟨hl, hr, hlinked, hfits⟩
    refine ⟨hr, hl, fun n hn i hc => ⟨fun name place hi => ?_, hfits n hn i hc⟩⟩
    exact mem_defines_iff.2 (hlinked n hn name ⟨i, place, hc, hi⟩)

end WordMachine.Program

namespace WordMachine

/-- A program is compiled just if its bytes and its labels have addresses, the labels that it
uses are defined, and its operands fit. It is refused as too large just if one of the first
two conditions fails. If both hold, it is refused for its first fault, in which a label
without an address comes before the operands; only over an instruction in the last word
the compiler can break down instead. -/
theorem a_program_is_compiled_or_refused_for_its_first_fault (p : Program) :
    ((∃ image, p.compile = .ok image) ↔ p.byteLength ≤ addressSpace ∧ p.LabelsReachable ∧
      (∀ n ∈ p.nodes, ∀ name, n.Uses name → name ∈ Node.labelNames p.nodes) ∧
      ∀ n ∈ p.nodes, ∀ i, n.content = .instruction i → i.Fits) ∧
    ((∃ size, p.compile = .error (.programTooLarge size)) ↔
      ¬ p.byteLength ≤ addressSpace ∨ ¬ p.LabelsReachable) ∧
    (p.byteLength ≤ addressSpace → p.LabelsReachable → ∀ e,
      (p.compile = .error e → e.isReport → p.FirstFault e) ∧
      (p.FirstFault e → p.compile = .error e ∨ p.compile = .error (.siteOverflow 0xFFFE))) := by
  refine ⟨Program.exists_image_iff, ?_, fun hl hr e => ?_⟩
  · simp only [Program.compile_eq_tooLarge_iff]
    rw [Program.exists_tooLarge_iff, ← Nat.not_le, or_comm]
  · have hsize := (Program.checkSize_eq_ok_iff p).2 ⟨hr, hl⟩
    exact ⟨Program.firstFault_of_compile hsize, Program.compile_of_firstFault hsize⟩

/-- An addition without registers, to which a label is given that is defined nowhere, and a
jump to another such label. -/
def twoFaults : Program := .ofNodes
  [⟨.instruction ⟨.nop, none, none, none⟩, some ⟨"start", .start⟩, .start⟩,
    ⟨.instruction ⟨.arith .add, none, none, some (.label "nowhere" .start)⟩, none, .start⟩,
    ⟨.instruction ⟨.jump, none, none, some (.label "elsewhere" .start)⟩, none, .start⟩]

theorem the_label_is_found_before_the_operands :
    twoFaults.byteLength ≤ addressSpace ∧ twoFaults.LabelsReachable ∧
      twoFaults.compile = .error (.unresolvedLabel "nowhere" .start) ∧
      twoFaults.FirstFault (.unresolvedLabel "nowhere" .start) := by
  have hl : twoFaults.byteLength ≤ addressSpace := by decide
  have hr : twoFaults.LabelsReachable := by
    intro n offset hs hlabel
    have hfits : offset + n.byteLength ≤ 8 := hs.fits
    have hspace : addressSpace = 65536 := rfl
    omega
  have hc : twoFaults.compile = .error (.unresolvedLabel "nowhere" .start) := by
    decide +kernel
  have h := (a_program_is_compiled_or_refused_for_its_first_fault twoFaults).2.2 hl hr
  exact ⟨hl, hr, hc, (h _).1 hc rfl⟩

end WordMachine
