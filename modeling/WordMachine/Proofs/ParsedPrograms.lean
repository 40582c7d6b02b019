-- Parsed programs. The parser takes the operands of an instruction in the number and order
-- that the compiler asks for, and each label once, so the compiler finds no fault in what it
-- parsed but labels that are defined nowhere and programs that are too large.
import WordMachine.Proofs.Reparsing
import WordMachine.Proofs.Verdicts

namespace WordMachine

/-! ## Operands -/

theorem LineSays.fits {vs : List TokenValue} {xs : List Item} (h : LineSays vs xs)
    {i : Instruction Immediate} (hi : .content (.instruction i) ∈ xs) : i.Fits := by
  have hstatement : ∀ {vs}, States vs (.content (.instruction i)) → i.Fits := by
    intro vs hs
    cases hs with
    | instruction hf => exact Instruction.fits_unplaced.2 hf
  have hbare : ∀ {vs xs}, BareLineSays vs xs → .content (.instruction i) ∈ xs → i.Fits := by
    intro vs xs hb hi
    cases hb with
    | nothing => cases hi
    | statement hs =>
      cases List.mem_singleton.1 hi
      exact hstatement hs
  cases h with
  | bare hb => exact hbare hb hi
  | labelled name hb =>
    rcases List.mem_cons.1 hi with he | hi
    · cases he
    · exact hbare hb hi

theorem SourceSays.fits {vs : List TokenValue} {xs : List Item} (h : SourceSays vs xs)
    {i : Instruction Immediate} (hi : .content (.instruction i) ∈ xs) : i.Fits := by
  obtain ⟨said, hsaid, rfl⟩ := h
  generalize vs.splitOn .endOfLine = lines at hsaid
  induction hsaid with
  | nil => cases hi
  | cons hx _ ih =>
    rcases List.mem_append.1 hi with hi | hi
    · exact hx.fits hi
    · exact ih hi

/-! ## Labels -/

/-- The number of nodes that have the label. -/
def Node.countLabelled (nodes : List Node) (name : String) : Nat :=
  nodes.countP fun n => n.label.map Label.name == some name

theorem Node.countLabelled_eq (nodes : List Node) (name : String) :
    countLabelled nodes name = (labelNames nodes).count name := by
  unfold countLabelled labelNames
  rw [List.count_filterMap]

theorem Node.countLabelled_of_nodup {nodes : List Node} (h : (labelNames nodes).Nodup)
    (name : String) : countLabelled nodes name = if name ∈ labelNames nodes then 1 else 0 := by
  rw [countLabelled_eq]
  exact h.count

/-! ## Programs -/

namespace Program

variable {ts : List Token} {p : Program}

/-- A program that was parsed says what its tokens say, and has each of their labels once. -/
theorem says_of_parse (h : parse ts = .ok p) : ∃ xs, SourceSays (ts.map Token.value) xs ∧
    (Item.labels xs).Nodup ∧ p.nodes.map Node.unplaced = Item.nodesFrom none xs := by
  have hne : ts ≠ [] := by
    rintro rfl
    cases h
  rw [parse_of_ne_nil hne] at h
  obtain ⟨said, hsaid, hn, -, -, hnodes, -⟩ := says_of_draft h
  exact ⟨said.flatten, sourceSays_iff.2 ⟨said, hsaid, rfl⟩, hn, hnodes⟩

theorem fits_of_parse (h : parse ts = .ok p) :
    ∀ n ∈ p.nodes, ∀ i, n.content = .instruction i → i.Fits := by
  intro n hn i hc
  obtain ⟨xs, htext, -, hnodes⟩ := says_of_parse h
  exact Instruction.fits_unplaced.1 (htext.fits (instruction_mem_of_items hnodes hn hc))

section Fitting

variable (hfits : ∀ n ∈ p.nodes, ∀ i, n.content = .instruction i → i.Fits)
include hfits

/-- The word for an address stands behind the instruction word, and the whole instruction
within the address space. -/
theorem Reaches.site_of_fits {n : Node} {offset : Nat} {name : String} (h : p.Reaches n offset)
    (hu : n.Uses name) : offset + 4 ≤ addressSpace := by
  obtain ⟨i, place, hc, hi⟩ := hu
  have h4 := Instruction.byteLength_of_immediate (hfits n h.standsAt.mem i hc) hi
  have hend := h.fits
  unfold Node.byteLength at hend
  rw [hc] at hend
  rw [← h4]
  exact hend

/-- If all operands fit, only a label can be wrong with the first node at fault. -/
theorem unresolved_of_firstFault {e : CompileError} (h : p.FirstFault e) :
    ∃ name place, e = .unresolvedLabel name place := by
  obtain ⟨before, n, after, hn, -, ho⟩ := h
  cases ho with
  | unresolved hc hi hu => exact ⟨_, _, rfl⟩
  | mismatch hc hl hf =>
    refine absurd (hfits n ?_ _ hc) hf
    rw [hn]
    exact List.mem_append_right before List.mem_cons_self

theorem error_of_fits {e : CompileError} (he : p.compile = .error e) :
    (∃ name place, e = .unresolvedLabel name place) ∨ ∃ size, e = .programTooLarge size := by
  cases hsize : p.checkSize with
  | error d =>
    obtain ⟨size, rfl, hs⟩ := checkSize_eq_error_iff.1 hsize
    rw [compile_eq_tooLarge_iff.2 hs] at he
    cases he
    exact .inr ⟨size, rfl⟩
  | ok u =>
    by_cases hreport : e.isReport
    · exact .inl (unresolved_of_firstFault hfits (firstFault_of_compile hsize he hreport))
    · cases e with
      | siteOverflow start =>
        obtain ⟨hle, n, hr, name, hu, -⟩ := compile_eq_overflow_iff.1 he
        have hsite := hr.site_of_fits hfits hu
        omega
      | _ => exact absurd rfl hreport

end Fitting

end Program

/-- The operands in a parsed program fit, whatever addresses its labels have. Each label that
its lines define sits on just one of its nodes, and no other label on any. Compilation fails
over nothing but a label that is defined nowhere or a program that is too large, and the
offset of each word for an address that it comes to is a word. -/
theorem a_parsed_program_lacks_no_more_than_a_label_or_room {ts : List Token} {p : Program}
    (h : Program.parse ts = .ok p) :
    (∀ n ∈ p.nodes, ∀ i, n.content = .instruction i → ∀ defines,
      (i.resolved defines).check = .ok (i.resolved defines)) ∧
    (∃ xs, SourceSays (ts.map Token.value) xs ∧ ∀ name,
      Node.countLabelled p.nodes name = if name ∈ Item.labels xs then 1 else 0) ∧
    (∀ e, p.compile = .error e →
      (∃ name place, e = .unresolvedLabel name place) ∨ ∃ size, e = .programTooLarge size) ∧
    ∀ n offset name, p.Reaches n offset → n.Uses name → offset + 2 ≤ 0xFFFF := by
  have hfits := Program.fits_of_parse h
  refine ⟨?_, ?_, ?_, ?_⟩
  · intro n hn i hc defines
    exact Instruction.check_eq_ok_iff.2 ⟨Instruction.fits_resolved.2 (hfits n hn i hc), rfl⟩
  · obtain ⟨xs, htext, hnodup, hnodes⟩ := Program.says_of_parse h
    have hlabels := Program.labelNames_of_items hnodes
    refine ⟨xs, htext, fun name => ?_⟩
    rw [Node.countLabelled_of_nodup (hlabels ▸ hnodup), hlabels]
  · exact fun e => Program.error_of_fits hfits
  · intro n offset name hr hu
    have hsite : offset + 4 ≤ 65536 := hr.site_of_fits hfits hu
    omega

/-- A labelled jump to itself, and a jump to a label that is defined nowhere. -/
def jumpNowhere : List Token :=
  ([.identifier "again", .punctuation .colon, .opcode (.jumpIf .less), .register .a,
    .punctuation .comma, .register .b, .punctuation .comma, .identifier "again", .endOfLine,
    .opcode .jump, .identifier "nowhere"] : List TokenValue).map fun v => ⟨v, .unknown, "", .start⟩

/-- The jump to itself, with its label. -/
def jumpAgain : Instruction Immediate :=
  ⟨.jumpIf .less, some .a, some .b, some (.label "again" .start)⟩

theorem a_jump_nowhere_is_refused_for_its_label : ∃ p, Program.parse jumpNowhere = .ok p ∧
    p.nodes.head? = some ⟨.instruction jumpAgain, some ⟨"again", .start⟩, .start⟩ ∧
    (jumpAgain.resolved p.defines).check = .ok (jumpAgain.resolved p.defines) ∧
    (∃ xs, SourceSays (jumpNowhere.map Token.value) xs ∧ "again" ∈ Item.labels xs ∧
      "nowhere" ∉ Item.labels xs) ∧
    ∃ e, p.compile = .error e ∧ ∃ name place, e = .unresolvedLabel name place := by
  obtain ⟨p, hp, hhead, hagain, hnowhere, hc⟩ : ∃ p, Program.parse jumpNowhere = .ok p ∧
      p.nodes.head? = some ⟨.instruction jumpAgain, some ⟨"again", .start⟩, .start⟩ ∧
      Node.countLabelled p.nodes "again" = 1 ∧ Node.countLabelled p.nodes "nowhere" = 0 ∧
      p.compile = .error (.unresolvedLabel "nowhere" .start) :=
    ⟨_, rfl, rfl, by decide +kernel, by decide +kernel, by decide +kernel⟩
  obtain ⟨hoperands, ⟨xs, htext, hlabels⟩, herror, -⟩ :=
    a_parsed_program_lacks_no_more_than_a_label_or_room hp
  refine ⟨p, hp, hhead, hoperands _ (List.mem_of_mem_head? hhead) _ rfl _, ⟨xs, htext, ?_, ?_⟩, ?_⟩
  · by_contra hn
    have h := hlabels "again"
    rw [hagain, if_neg hn] at h
    cases h
  · intro hm
    have h := hlabels "nowhere"
    rw [hnowhere, if_pos hm] at h
    cases h
  · refine ⟨_, hc, (herror _ hc).resolve_right ?_⟩
    rintro ⟨size, he⟩
    cases he

end WordMachine
