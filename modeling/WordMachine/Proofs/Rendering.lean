-- Rendering: the listing of a program is read as lines that say what its nodes
-- say, so the program that is parsed from it has the same image.
import WordMachine.Proofs.LabelResolution
import WordMachine.Proofs.Parsing
import WordMachine.Proofs.Reading

namespace WordMachine

/-! ## Texts that say something -/

/-- A text whose lines say items is read as the nodes of the items. -/
theorem Program.ofSource_of_reads {source : String} {lines : List (List TokenValue)}
    {said : List (List Item)} (hr : Reads source.toList (lines.flatMap (· ++ [.endOfLine])))
    (hl : List.Forall₂ LineSays lines said) (hdistinct : (Item.labels said.flatten).Nodup)
    (hone : (Item.titles said.flatten).length ≤ 1) (hne : ∃ vs ∈ lines, vs ≠ []) :
    ∃ p, Program.ofSource source = .ok p ∧ p.name.toList = Item.titles said.flatten ∧
      p.nodes.map Node.unplaced = Item.nodesFrom none said.flatten := by
  have hsays : TextSays source said.flatten := ⟨_, hr, sourceSays_of_lines hl⟩
  have hsaid : said.flatten ≠ [] := by
    rw [ne_eq, flatten_eq_nil_iff_of_lines hl]
    push Not
    exact hne
  exact hsays.exists_program hsaid hdistinct hone

/-! ## Columns -/

theorem toList_pushn (s : String) (c : Char) (n : Nat) :
    (s.pushn c n).toList = s.toList ++ List.replicate n c := by
  induction n with
  | zero => exact (List.append_nil _).symm
  | succ n ih =>
    have hs : s.pushn c (n + 1) = (s.pushn c n).push c := rfl
    rw [hs, String.toList_push, ih, List.append_assoc, List.replicate_succ']

namespace Reads

variable {rest : List Char} {vs : List TokenValue}

/-- A mnemonic and its operands. -/
theorem column {s operands : String} (hs : isName s = true)
    (ho : StopsAt isBlank (operands.toList ++ rest)) (h : Reads (operands.toList ++ rest) vs) :
    Reads ((Instruction.column s operands).toList ++ rest) (.ofName s :: vs) := by
  have hlist : (Instruction.column s operands).toList ++ rest = s.toList ++
      (List.replicate (Opcode.mnemonicWidth - s.length + 1) ' ' ++ (operands.toList ++ rest)) := by
    unfold Instruction.column Text.padRight
    rw [String.toList_append, String.toList_append, toList_pushn, List.replicate_succ']
    simp
  rw [hlist]
  refine word hs ?_ (spaces _ ho h)
  rw [List.replicate_succ]
  exact stopsAt_cons rfl

/-- A statement stands behind four blanks. -/
theorem indented {s : String} (hs : StopsAt isBlank (s.toList ++ rest))
    (h : Reads (s.toList ++ rest) vs) : Reads (("    " ++ s).toList ++ rest) vs := by
  rw [String.toList_append, List.append_assoc]
  exact spaces 3 hs h

end Reads

/-! ## Instructions -/

/-- The text is one token, if no name goes on behind it. -/
structure ReadsAs (s : String) (v : TokenValue) : Prop where
  starts : ∀ rest, StopsAt isBlank (s.toList ++ rest)
  reads : ∀ {rest vs}, StopsAt isNameChar rest → Reads rest vs → Reads (s.toList ++ rest) (v :: vs)

theorem stopsAt_of_isName {s : String} (h : isName s = true) (rest : List Char) :
    StopsAt isBlank (s.toList ++ rest) := by
  unfold isName at h
  split at h
  · cases h
  · rename_i c cs hcs
    rw [hcs]
    exact stopsAt_cons
      (isBlank_of_isNameChar (isNameChar_of_isNameStart (Bool.and_eq_true_iff.1 h).1))

theorem stopsAt_column {s : String} (h : isName s = true) (operands : String) (rest : List Char) :
    StopsAt isBlank ((Instruction.column s operands).toList ++ rest) := by
  unfold Instruction.column Text.padRight
  rw [String.toList_append, String.toList_append, toList_pushn, List.append_assoc,
    List.append_assoc, List.append_assoc]
  exact stopsAt_of_isName h _

theorem readsAs_name {s : String} {v : TokenValue} (hs : isName s = true)
    (hv : TokenValue.ofName s = v) : ReadsAs s v := by
  refine ⟨stopsAt_of_isName hs, ?_⟩
  intro rest vs hr h
  rw [← hv]
  exact Reads.word hs hr h

theorem readsAs_wordText (w : UInt16) : ReadsAs (Instruction.wordText w) (.number w.toNat) := by
  refine ⟨?_, Reads.wordText w⟩
  intro rest
  unfold Instruction.wordText
  rw [String.toList_append]
  exact stopsAt_cons rfl

theorem stopsAt_operands {s : String} {v : TokenValue} (h : ReadsAs s v) (texts : List String)
    (rest : List Char) :
    StopsAt isBlank ((", ".intercalate (s :: texts)).toList ++ rest) := by
  cases texts with
  | nil => exact h.starts rest
  | cons t texts =>
    rw [String.intercalate_cons_cons, String.toList_append, String.toList_append, List.append_assoc,
      List.append_assoc]
    exact h.starts _

theorem readsAs_quoted {s : String} (hs : ∀ c ∈ s.toList, isInString c = true) :
    ReadsAs ("\"" ++ s ++ "\"") (.string s) := by
  have hlist : ∀ rest, ("\"" ++ s ++ "\"").toList ++ rest = '"' :: s.toList ++ '"' :: rest := by
    intro rest
    rw [String.toList_append, String.toList_append]
    simp
  refine ⟨?_, ?_⟩
  · intro rest
    rw [hlist]
    exact stopsAt_cons rfl
  · intro rest vs _ h
    have hq := Reads.quoted hs h
    rwa [String.ofList_toList, ← hlist] at hq

/-- Operands are read with commas between them. -/
theorem reads_operands {texts : List String} {values : List TokenValue}
    (ht : List.Forall₂ ReadsAs texts values) {rest : List Char} {vs : List TokenValue}
    (hr : StopsAt isNameChar rest) (h : Reads rest vs) :
    Reads ((", ".intercalate texts).toList ++ rest)
      (values.intersperse (.punctuation .comma) ++ vs) := by
  induction ht with
  | nil => exact h
  | @cons s v texts values hs ht ih =>
    cases ht with
    | nil => exact hs.reads hr h
    | @cons t w texts values ht' hts =>
      have hlist : (", ".intercalate (s :: t :: texts)).toList ++ rest =
          s.toList ++ (',' :: ' ' :: ((", ".intercalate (t :: texts)).toList ++ rest)) := by
        rw [String.intercalate_cons_cons, String.toList_append, String.toList_append,
          List.append_assoc, List.append_assoc]
        rfl
      rw [hlist, List.intersperse_cons_cons]
      have hblank := Reads.space (stopsAt_operands ht' texts rest) ih
      exact hs.reads (stopsAt_cons rfl) hblank.comma

/-- The label that an instruction uses, if it uses one, can stand in a text. -/
def Instruction.Legible (i : Instruction Immediate) : Prop :=
  ∀ name location, i.immediate = some (.label name location) → IsLabelName name

namespace Instruction

theorem readsAs_operands {i : Instruction Immediate} (hl : i.Legible) :
    List.Forall₂ ReadsAs (i.operandTexts Immediate.text) i.operands := by
  unfold operandTexts operands
  have hregs : ∀ rs : List Register, List.Forall₂ ReadsAs (rs.map Register.name)
      (rs.map TokenValue.register) := by
    intro rs
    induction rs with
    | nil => exact .nil
    | cons r rs ih => exact .cons (readsAs_name (isName_register r) (ofName_register r)) ih
  have himm : List.Forall₂ ReadsAs (i.immediate.toList.map Immediate.text)
      (i.immediate.toList.map Immediate.meaning) := by
    cases hi : i.immediate with
    | none => exact .nil
    | some imm =>
      refine .cons ?_ .nil
      cases imm with
      | constant value => exact readsAs_wordText value
      | label name location =>
        have hn := hl name location hi
        exact readsAs_name hn.isName hn.ofName
  exact List.rel_append (hregs _) himm

/-- An instruction is read as its tokens. -/
theorem reads_text {i : Instruction Immediate} (hl : i.Legible) {rest : List Char}
    {vs : List TokenValue} (hr : StopsAt isNameChar rest) (h : Reads rest vs) :
    Reads ((i.text Immediate.text).toList ++ rest) (i.meanings ++ vs) := by
  have ho := readsAs_operands hl
  have hn := isName_mnemonic i.opcode
  have hread := reads_operands ho hr h
  unfold text meanings
  rw [← ofName_mnemonic]
  split
  · rename_i hnil
    rw [hnil, List.forall₂_nil_left_iff] at ho
    rw [ho]
    exact Reads.word hn hr h
  · rename_i operands hne
    refine Reads.column hn ?_ hread
    cases htexts : i.operandTexts Immediate.text with
    | nil => exact absurd htexts hne
    | cons s texts =>
      rw [htexts] at ho
      obtain ⟨v, values, hs, -, -⟩ := List.forall₂_cons_left_iff.1 ho
      exact stopsAt_operands hs texts rest

theorem stopsAt_text (i : Instruction Immediate) (rest : List Char) :
    StopsAt isBlank ((i.text Immediate.text).toList ++ rest) := by
  have hn := isName_mnemonic i.opcode
  unfold text
  split
  · exact stopsAt_of_isName hn rest
  · exact stopsAt_column hn _ rest

end Instruction

/-! ## Nodes -/

/-- The meanings of the tokens on the line of a content. -/
def Content.lineValues : Content → List TokenValue
  | binary [] => []
  | binary bytes => [.directive .put, .string (Literal.write bytes)]
  | instruction i => i.meanings

/-- The meanings of the tokens on the lines of a node. -/
def Node.lineValues (n : Node) : List (List TokenValue) :=
  (n.label.toList.map fun l => [.identifier l.name, .punctuation .colon]) ++ [n.content.lineValues]

/-- What the lines of a node say. -/
def Node.said (n : Node) : List (List Item) :=
  (n.label.toList.map fun l => [.label l.name]) ++ [n.content.items]

/-- The names in the node can stand in a text. -/
structure Node.Legible (n : Node) : Prop where
  label : ∀ l, n.label = some l → IsLabelName l.name
  content : ∀ i, n.content = .instruction i → i.Legible

namespace Content

theorem reads_listing {c : Content} (hl : ∀ i, c = .instruction i → i.Legible)
    {rest : List Char} {vs : List TokenValue} (h : Reads rest vs) :
    Reads (c.listing.toList ++ '\n' :: rest) (c.lineValues ++ .endOfLine :: vs) := by
  have hend : Reads ('\n' :: rest) (.endOfLine :: vs) := h.newline
  cases c with
  | binary bytes =>
    cases bytes with
    | nil => exact hend
    | cons b bs =>
      have hput : TokenValue.ofName "PUT" = .directive .put := by decide +kernel
      have hchars : ∀ d ∈ (Literal.write (b :: bs)).toList, isInString d = true :=
        fun d hd => Literal.isInString_of_mem_write hd
      have hliteral := readsAs_quoted hchars
      have hcolumn := Reads.column (s := "PUT") (by decide +kernel) (hliteral.starts _)
        (hliteral.reads (stopsAt_cons (by decide)) hend)
      rw [hput] at hcolumn
      exact Reads.indented (stopsAt_column (by decide +kernel) _ _) hcolumn
  | instruction i =>
    have ht := Instruction.reads_text (hl i rfl) (stopsAt_cons (by decide)) hend
    exact Reads.indented (i.stopsAt_text _) ht

end Content

namespace Node

theorem reads_listing {n : Node} (hn : n.Legible) {rest : List Char} {vs : List TokenValue}
    (h : Reads rest vs) : Reads ((n.listing ++ "\n").toList ++ rest)
      (n.lineValues.flatMap (· ++ [.endOfLine]) ++ vs) := by
  have hc := Content.reads_listing hn.content h
  unfold listing lineValues
  cases hl : n.label with
  | none =>
    simpa using hc
  | some l =>
    have hname := hn.label l hl
    have hlabel := Reads.word hname.isName (stopsAt_cons (by decide)) (Reads.colon (Reads.newline hc))
    rw [hname.ofName] at hlabel
    simpa using hlabel

end Node

/-! ## Programs -/

namespace Program

/-- The meanings of the tokens on the lines of a listing. -/
def lineValues (p : Program) : List (List TokenValue) :=
  (p.name.toList.map fun name => [.directive .name, .string name]) ++ p.nodes.flatMap Node.lineValues

/-- What the lines of a listing say. -/
def said (p : Program) : List (List Item) :=
  (p.name.toList.map fun name => [.title name]) ++ p.nodes.flatMap Node.said

/-- A program that can be written as a text and read again: each label has a name of its
own that is no word of the language, the name of the document can stand between
quotes, and there is something to write. -/
structure Printable (p : Program) : Prop where
  distinct : (Node.labelNames p.nodes).Nodup
  label_names : ∀ name ∈ Node.labelNames p.nodes, IsLabelName name
  title : ∀ name, p.name = some name → ∀ c ∈ name.toList, c ≠ '"' ∧ c ≠ '\r' ∧ c ≠ '\n'
  not_empty : p.name.isSome ∨ ∃ n ∈ p.nodes, n.label.isSome ∨ n.byteLength ≠ 0

theorem reads_listing {p : Program} (hn : ∀ n ∈ p.nodes, n.Legible)
    (ht : ∀ name, p.name = some name → ∀ c ∈ name.toList, isInString c = true) :
    Reads p.listing.toList (p.lineValues.flatMap (· ++ [.endOfLine])) := by
  have hnodes : Reads (String.join (p.nodes.map fun n => n.listing ++ "\n")).toList
      ((p.nodes.flatMap Node.lineValues).flatMap (· ++ [.endOfLine])) := by
    rw [String.toList_join]
    generalize p.nodes = nodes at hn
    induction nodes with
    | nil => exact .nil
    | cons n ns ih =>
      obtain ⟨hhead, htail⟩ := List.forall_mem_cons.1 hn
      rw [List.map_cons, List.flatMap_cons, List.flatMap_cons, List.flatMap_append]
      exact Node.reads_listing hhead (ih htail)
  unfold listing lineValues
  cases hname : p.name with
  | none => simpa using hnodes
  | some name =>
    have hdirective : TokenValue.ofName "NAME" = .directive .name := by decide +kernel
    have hq := readsAs_quoted (ht name hname)
    have hline := Reads.word (s := "NAME") (by decide +kernel) (stopsAt_cons (by decide))
      (Reads.space (hq.starts _) (hq.reads (stopsAt_cons (by decide)) (Reads.newline hnodes)))
    rw [hdirective] at hline
    simpa using hline

theorem lines_say_said {p : Program} (hf : ∀ n ∈ p.nodes, ∀ i, n.content = .instruction i → i.Fits) :
    List.Forall₂ LineSays p.lineValues p.said := by
  have hcontent : ∀ c : Content, (∀ i, c = .instruction i → i.Fits) →
      LineSays c.lineValues c.items := by
    intro c hc
    cases c with
    | binary bytes =>
      cases bytes with
      | nil => exact .bare .nothing
      | cons b bs => exact .bare (.statement (.text (Literal.read_write (b :: bs))))
    | instruction i => exact .bare (.statement (.instruction (hc i rfl)))
  have hnode : ∀ n : Node, (∀ i, n.content = .instruction i → i.Fits) →
      List.Forall₂ LineSays n.lineValues n.said := by
    intro n hn
    refine List.rel_append ?_ (.cons (hcontent n.content hn) .nil)
    cases n.label with
    | none => exact .nil
    | some l => exact .cons (.labelled l.name .nothing) .nil
  unfold lineValues said
  refine List.rel_append ?_ ?_
  · cases p.name with
    | none => exact .nil
    | some name => exact .cons (.bare (.statement (.title name))) .nil
  · generalize p.nodes = nodes at hf
    induction nodes with
    | nil => exact .nil
    | cons n ns ih =>
      obtain ⟨hhead, htail⟩ := List.forall_mem_cons.1 hf
      exact List.rel_append (hnode n hhead) (ih htail)

/-- The listing says the name and what the nodes say. -/
theorem flatten_said (p : Program) :
    p.said.flatten = p.name.toList.map .title ++ p.nodes.flatMap Node.items := by
  have hnode : ∀ n : Node, n.said.flatten = n.items := by
    intro n
    unfold Node.said Node.items
    cases n.label <;> simp
  unfold said
  rw [List.flatten_append]
  congr 1
  · cases p.name <;> rfl
  · induction p.nodes with
    | nil => rfl
    | cons n ns ih => rw [List.flatMap_cons, List.flatten_append, hnode, ih, List.flatMap_cons]

theorem labels_said (p : Program) : Item.labels p.said.flatten = Node.labelNames p.nodes := by
  have hnode : ∀ n : Node, Item.labels n.items = (n.label.map Label.name).toList := by
    intro n
    have hc : Item.labels n.content.items = [] := by
      rcases n.content.items_cases with hc | hc <;> rw [hc] <;> rfl
    unfold Node.items
    rw [Item.labels_append, hc]
    cases n.label <;> rfl
  have htitle : Item.labels (p.name.toList.map .title) = [] := by
    cases p.name <;> rfl
  rw [flatten_said, Item.labels_append, htitle, List.nil_append]
  unfold Node.labelNames
  induction p.nodes with
  | nil => rfl
  | cons n ns ih =>
    rw [List.flatMap_cons, Item.labels_append, ih, hnode, List.filterMap_cons]
    cases n.label <;> rfl

/-- No node gives a name to the document. -/
theorem title?_of_mem_items {nodes : List Node} {x : Item} (h : x ∈ nodes.flatMap Node.items) :
    x.title? = none := by
  obtain ⟨n, -, hx⟩ := List.mem_flatMap.1 h
  unfold Node.items at hx
  rcases List.mem_append.1 hx with hx | hx
  · obtain ⟨l, -, rfl⟩ := List.mem_map.1 hx
    rfl
  · rcases n.content.items_cases with hc | hc
    · rw [hc] at hx
      cases hx
    · rw [hc, List.mem_singleton] at hx
      rw [hx]
      rfl

theorem titles_said (p : Program) : Item.titles p.said.flatten = p.name.toList := by
  have hnodes : Item.titles (p.nodes.flatMap Node.items) = [] := by
    unfold Item.titles
    rw [List.filterMap_eq_nil_iff]
    exact fun x hx => title?_of_mem_items hx
  rw [flatten_said, Item.titles_append, hnodes, List.append_nil]
  cases p.name <;> rfl

theorem items_of_content_mem {p : Program} {c : Content} (h : .content c ∈ p.said.flatten) :
    c.items = [.content c] := by
  rw [flatten_said] at h
  rcases List.mem_append.1 h with h | h
  · obtain ⟨name, -, he⟩ := List.mem_map.1 h
    cases he
  · obtain ⟨n, -, hx⟩ := List.mem_flatMap.1 h
    unfold Node.items at hx
    rcases List.mem_append.1 hx with hx | hx
    · obtain ⟨l, -, he⟩ := List.mem_map.1 hx
      cases he
    · rcases n.content.items_cases with hc | hc
      · rw [hc] at hx
        cases hx
      · rw [hc, List.mem_singleton] at hx
        cases hx
        rw [Content.items_unplaced, hc]

/-- Nodes that say what a listing says have the items of the listed nodes. -/
theorem items_of_nodesFrom {p q : Program}
    (h : q.nodes.map Node.unplaced = Item.nodesFrom none p.said.flatten) :
    p.nodes.flatMap Node.items = q.nodes.flatMap Node.items := by
  rw [← Node.items_map_unplaced q.nodes, h, Item.items_nodesFrom,
    Item.items_row fun c hc => items_of_content_mem hc, flatten_said]
  have htitle : (p.name.toList.map Item.title).filter (fun x => x.title?.isNone) = [] := by
    cases p.name <;> rfl
  have hall : (p.nodes.flatMap Node.items).filter (fun x => x.title?.isNone) =
      p.nodes.flatMap Node.items := by
    rw [List.filter_eq_self]
    intro x hx
    rw [title?_of_mem_items hx]
    rfl
  rw [List.filter_append, htitle, hall]
  rfl

/-- A listing says something if there is a name, a label or a content with bytes. -/
theorem exists_line {p : Program} (h : p.name.isSome ∨ ∃ n ∈ p.nodes, n.label.isSome ∨
    n.content ≠ .binary []) : ∃ vs ∈ p.lineValues, vs ≠ [] := by
  unfold lineValues
  rcases h with hname | ⟨n, hn, hsays⟩
  · obtain ⟨name, hname⟩ := Option.isSome_iff_exists.1 hname
    refine ⟨[.directive .name, .string name], List.mem_append_left _ ?_, by simp⟩
    rw [hname]
    exact List.mem_singleton.2 rfl
  · rcases hsays with hl | hb
    · obtain ⟨l, hl⟩ := Option.isSome_iff_exists.1 hl
      refine ⟨[.identifier l.name, .punctuation .colon], List.mem_append_right _ ?_, by simp⟩
      refine List.mem_flatMap.2 ⟨n, hn, ?_⟩
      unfold Node.lineValues
      rw [hl]
      exact List.mem_cons_self
    · refine ⟨n.content.lineValues, List.mem_append_right _ ?_, ?_⟩
      · exact List.mem_flatMap.2 ⟨n, hn, List.mem_append_right _ (List.mem_singleton.2 rfl)⟩
      · cases hc : n.content with
        | binary bytes =>
          cases bytes with
          | nil => exact absurd hc hb
          | cons b bs => simp [Content.lineValues]
        | instruction i => simp [Content.lineValues, Instruction.meanings]

theorem Printable.exists_line {p : Program} (h : p.Printable) : ∃ vs ∈ p.lineValues, vs ≠ [] := by
  apply Program.exists_line
  refine h.not_empty.imp_right ?_
  rintro ⟨n, hn, hsays⟩
  refine ⟨n, hn, hsays.imp_right ?_⟩
  intro hb hc
  apply hb
  unfold Node.byteLength
  rw [hc]
  rfl

theorem Printable.legible {p : Program} (h : p.Printable) (hp : p.Compilable) {n : Node}
    (hn : n ∈ p.nodes) : n.Legible := by
  refine ⟨?_, ?_⟩
  · intro l hl
    refine h.label_names l.name (List.mem_filterMap.2 ⟨n, hn, ?_⟩)
    rw [hl]
    rfl
  · intro i hi name location himm
    -- A label that is used is defined, so its name is that of some node.
    have hm := (hp.encodable n hn i hi).1 name location himm
    exact h.label_names name (mem_defines_iff.1 hm)

end Program

/-- The text of a program is read as a program with the same name and the same image,
also when labels have moved to other nodes at their addresses. -/
theorem a_listed_program_keeps_its_image (p : Program) (image : Image)
    (h : p.compile = .ok image) (hp : p.Printable) :
    ∃ q other, Program.ofSource p.listing = .ok q ∧ q.compile = .ok other ∧
      q.name = p.name ∧ other.Agrees image := by
  obtain ⟨hc, -⟩ := Program.compile_eq_ok_iff.1 h
  have htitle : ∀ name, p.name = some name → ∀ c ∈ name.toList, isInString c = true := by
    intro name hname c hm
    obtain ⟨hq, hr, hl⟩ := hp.title name hname c hm
    simp [isInString, isInLine, hq, hr, hl]
  have hreads := Program.reads_listing (fun n hn => hp.legible hc hn) htitle
  have hlines := Program.lines_say_said fun n hn i hi => (hc.encodable n hn i hi).2
  have hdistinct : (Item.labels p.said.flatten).Nodup := by
    rw [Program.labels_said]
    exact hp.distinct
  have hone : (Item.titles p.said.flatten).length ≤ 1 := by
    rw [Program.titles_said]
    cases p.name <;> simp
  obtain ⟨q, hq, hname, hnodes⟩ :=
    Program.ofSource_of_reads hreads hlines hdistinct hone hp.exists_line
  obtain ⟨other, ho, ha⟩ := Program.compile_of_items (Program.items_of_nodesFrom hnodes) h
  refine ⟨q, other, hq, ho, ?_, ha⟩
  rw [Program.titles_said] at hname
  cases hn : p.name with
  | none =>
    rw [hn] at hname
    exact Option.toList_eq_nil_iff.1 hname
  | some name =>
    rw [hn] at hname
    exact Option.toList_eq_singleton_iff.1 hname

/-- A program with two labels at one address, a label behind all nodes and data with a
quote in it. -/
def slidingLabels : Program := ⟨some "demo", [
  ⟨.binary [], some ⟨"first", .start⟩, .start⟩,
  ⟨.binary [], none, .start⟩,
  ⟨.binary [0x22, 0x0A, 0x41], some ⟨"second", .start⟩, .start⟩,
  ⟨.instruction ⟨.jump, none, none, some (.label "end" .start)⟩, none, .start⟩,
  ⟨.binary [], some ⟨"end", .start⟩, .start⟩], ∅⟩

theorem the_listing_of_sliding_labels_keeps_their_image :
    slidingLabels.compile = .ok slidingLabels.image ∧ slidingLabels.Printable ∧
      ∃ q other, Program.ofSource slidingLabels.listing = .ok q ∧ q.compile = .ok other ∧
        q.name = some "demo" ∧ other.Agrees slidingLabels.image := by
  have hc : slidingLabels.compile = .ok slidingLabels.image := by decide +kernel
  have hp : slidingLabels.Printable := by
    refine ⟨by decide +kernel, by decide +kernel, ?_, .inl rfl⟩
    intro name hn c hm
    cases hn
    have hchars : "demo".toList = ['d', 'e', 'm', 'o'] := rfl
    rw [hchars] at hm
    simp only [List.mem_cons, List.not_mem_nil, or_false] at hm
    rcases hm with rfl | rfl | rfl | rfl <;> decide
  exact ⟨hc, hp, a_listed_program_keeps_its_image slidingLabels slidingLabels.image hc hp⟩

end WordMachine
