-- Parsing: the parser takes every line that says items, as long as no label is
-- defined twice and the document has one name, and makes the nodes of the items.
import WordMachine.Proofs.Grammar

namespace WordMachine

/-! ## Operands -/

namespace Line

theorem register_of_value {t : Token} {r : Register} (h : t.value = .register r) (line : Line)
    (ts : List Token) : line.register (t :: ts) = .ok (r, ts) := by
  simp only [register, h]

theorem comma_of_value {t : Token} (h : t.value = .punctuation .comma) (line : Line)
    (ts : List Token) : line.comma (t :: ts) = .ok ts := by
  simp only [comma, h, if_true]

theorem immediate_of_value {t : Token} {imm : Immediate} (h : t.value = imm.meaning)
    (line : Line) : ∃ j, line.immediate [t] = .ok j ∧ j.unplaced = imm.unplaced := by
  cases imm with
  | constant value =>
    refine ⟨.constant value, ?_, rfl⟩
    unfold immediate word
    simp only [h, Immediate.meaning, if_pos value.toNat_lt_size, UInt16.ofNat_toNat]
    rfl
  | label name location =>
    refine ⟨.label name t.location, ?_, rfl⟩
    unfold immediate
    simp only [h, Immediate.meaning]

/-- The registers of an instruction are read from their tokens. -/
theorem registers_of_values {i : Instruction Immediate} (hf : i.Fits) (line : Line)
    {ts : List Token} (ht : ts.map Token.value =
      ((i.a.toList ++ i.b.toList).map TokenValue.register).intersperse (.punctuation .comma))
    (rest : List Token) :
    line.registers i.opcode.shape.registers (ts ++ rest) = .ok ((i.a, i.b), rest) := by
  rcases hf.registers with ⟨hr, ha, hb⟩ | ⟨ra, hr, ha, hb⟩ | ⟨ra, rb, hr, ha, hb⟩ <;>
    rw [hr, ha, hb] <;> rw [ha, hb] at ht
  · rw [List.map_eq_nil_iff.1 ht]
    rfl
  · obtain ⟨t, us, rfl, h1, ht⟩ := List.map_eq_cons_iff.1 ht
    rw [List.map_eq_nil_iff.1 ht]
    simp only [registers, List.cons_append, List.nil_append, register_of_value h1]
    rfl
  · obtain ⟨t, us, rfl, h1, ht⟩ := List.map_eq_cons_iff.1 ht
    obtain ⟨u, us, rfl, h2, ht⟩ := List.map_eq_cons_iff.1 ht
    obtain ⟨v, us, rfl, h3, ht⟩ := List.map_eq_cons_iff.1 ht
    rw [List.map_eq_nil_iff.1 ht]
    simp only [registers, List.cons_append, List.nil_append, register_of_value h1,
      comma_of_value h2, register_of_value h3, bind, Except.bind]
    rfl

/-- The tokens of an immediate stand behind those of the registers, with a comma
between them if there are registers. -/
theorem operands_of_immediate {i : Instruction Immediate} (hf : i.Fits) {imm : Immediate}
    (himm : i.immediate = some imm) : i.operands.intersperse (.punctuation .comma) =
      ((i.a.toList ++ i.b.toList).map TokenValue.register).intersperse (.punctuation .comma) ++
        ((if i.opcode.shape.registers = 0 then [] else [.punctuation .comma]) ++
          [imm.meaning]) := by
  unfold Instruction.operands
  rcases hf.registers with ⟨hr, ha, hb⟩ | ⟨ra, hr, ha, hb⟩ | ⟨ra, rb, hr, ha, hb⟩ <;>
    rw [hr, ha, hb, himm] <;> rfl

/-- The operands that an operation takes are read from their tokens. -/
theorem instruction_of_values {i : Instruction Immediate} (hf : i.Fits) (line : Line)
    {ts : List Token} (ht : ts.map Token.value = i.operands.intersperse (.punctuation .comma)) :
    ∃ j, line.instruction i.opcode ts = .ok (j, []) ∧ j.unplaced = i.unplaced := by
  have hi := hf.2.2
  cases himm : i.immediate with
  | none =>
    rw [himm] at hi
    unfold Instruction.operands at ht
    rw [himm, Option.toList_none, List.map_nil, List.append_nil] at ht
    have hregs := registers_of_values hf line ht []
    rw [List.append_nil] at hregs
    refine ⟨⟨i.opcode, i.a, i.b, none⟩, ?_, ?_⟩
    · unfold instruction
      rw [hregs, ← hi]
      rfl
    · unfold Instruction.unplaced
      rw [himm]
  | some imm =>
    rw [himm] at hi
    rw [operands_of_immediate hf himm] at ht
    obtain ⟨rs, us, rfl, hrs, ht⟩ := List.map_eq_append_iff.1 ht
    obtain ⟨cs, us, rfl, hcs, ht⟩ := List.map_eq_append_iff.1 ht
    obtain ⟨t, us, rfl, hvalue, ht⟩ := List.map_eq_cons_iff.1 ht
    rw [List.map_eq_nil_iff.1 ht]
    have hregs := registers_of_values hf line hrs (cs ++ [t])
    obtain ⟨j, hj, hu⟩ := immediate_of_value hvalue line
    refine ⟨⟨i.opcode, i.a, i.b, some j⟩, ?_, ?_⟩
    · unfold instruction
      rw [hregs, ← hi]
      by_cases hr : i.opcode.shape.registers = 0
      · rw [if_pos hr] at hcs
        rw [List.map_eq_nil_iff.1 hcs, List.nil_append]
        simp only [bind, Except.bind, pure, Except.pure, Option.isSome_some, hr, if_true, hj]
      · rw [if_neg hr] at hcs
        obtain ⟨c, ds, rfl, hc, hd⟩ := List.map_eq_cons_iff.1 hcs
        rw [List.map_eq_nil_iff.1 hd, List.singleton_append]
        simp only [bind, Except.bind, pure, Except.pure, Option.isSome_some, hr, if_true, if_false,
          comma_of_value hc, hj]
    · unfold Instruction.unplaced
      rw [himm, Option.map_some, Option.map_some, hu]

end Line

/-! ## Drafts -/

namespace Draft

/-- The draft holds what the items say. The nodes of any further items come behind its
own nodes, the first content behind the label that waits. -/
structure Holds (d : Draft) (xs : List Item) : Prop where
  name : d.name.toList = Item.titles xs
  labels : ∀ name, name ∈ d.labels ↔ name ∈ Item.labels xs
  nodes : ∀ more, Item.nodesFrom none (xs ++ more) =
    d.nodes.reverse.map Node.unplaced ++ Item.nodesFrom (d.pending.map Label.name) more

theorem holds_empty : empty.Holds [] := by
  refine ⟨rfl, ?_, fun more => rfl⟩
  intro name
  unfold empty Item.labels
  simp

theorem Holds.define {d : Draft} {xs : List Item} (h : d.Holds xs) (l : Label)
    (hl : l.name ∉ Item.labels xs) :
    ∃ d', d.define l = .ok d' ∧ d'.Holds (xs ++ [.label l.name]) := by
  have hnone : d.labels[l.name]? = none := by
    apply Std.ExtTreeMap.getElem?_eq_none
    rwa [h.labels]
  refine ⟨{ d.anchored with labels := d.labels.insert l.name l.location, pending := some l }, ?_, ?_,
    ?_, ?_⟩
  · unfold Draft.define
    rw [hnone]
  · have hname : d.anchored.name = d.name := by
      unfold anchored
      split <;> rfl
    rw [Item.titles_append, ← h.name, hname]
    exact (List.append_nil _).symm
  · intro name
    rw [Item.labels_append, List.mem_append, ← h.labels, Std.ExtTreeMap.mem_insert,
      Std.LawfulEqCmp.compare_eq_iff_eq]
    simp [Item.labels, Item.labelName?, or_comm, eq_comm]
  · intro more
    rw [List.append_assoc, List.singleton_append, h.nodes, Item.nodesFrom]
    unfold anchored
    cases hp : d.pending with
    | none => rfl
    | some waiting =>
      simp only [Option.map_some, Option.toList_some, List.map_cons, List.map_nil,
        List.reverse_cons, List.map_append, List.append_assoc]
      rfl

theorem Holds.add {d : Draft} {xs : List Item} (h : d.Holds xs) (c : Content)
    (location : Location) : (d.add c location).Holds (xs ++ [.content c.unplaced]) := by
  refine ⟨?_, ?_, ?_⟩
  · rw [Item.titles_append, ← h.name]
    exact (List.append_nil _).symm
  · intro name
    rw [Item.labels_append, Item.labels_content, List.append_nil]
    exact h.labels name
  · intro more
    rw [List.append_assoc, List.singleton_append, h.nodes, Item.nodesFrom]
    unfold Draft.add
    rw [List.reverse_cons, List.map_append, List.append_assoc]
    congr 1
    unfold Node.unplaced
    rw [Option.map_map]
    rfl

theorem Holds.setName {d : Draft} {xs : List Item} (h : d.Holds xs) (name : String)
    (location : Location) (ht : Item.titles xs = []) :
    ∃ d', d.setName name location = .ok d' ∧ d'.Holds (xs ++ [.title name]) := by
  have hnone : d.name = none := by
    have hn := h.name
    rw [ht] at hn
    cases hd : d.name with
    | none => rfl
    | some s =>
      rw [hd] at hn
      cases hn
  refine ⟨{ d with name := some name }, ?_, ?_, ?_, ?_⟩
  · unfold Draft.setName
    rw [hnone]
  · rw [Item.titles_append, ht]
    rfl
  · intro other
    rw [Item.labels_append, Item.labels_title, List.append_nil]
    exact h.labels other
  · intro more
    rw [List.append_assoc, List.singleton_append, h.nodes, Item.nodesFrom]

theorem Holds.bareLine {d : Draft} {xs ys : List Item} (h : d.Holds xs) (line : Line)
    {ts : List Token} (hs : BareLineSays (ts.map Token.value) ys)
    (hone : (Item.titles (xs ++ ys)).length ≤ 1) :
    ∃ d', d.statement line ts = .ok d' ∧ d'.Holds (xs ++ ys) := by
  generalize hvs : ts.map Token.value = vs at hs
  cases hs with
  | nothing =>
    rw [List.map_eq_nil_iff.1 hvs, List.append_nil]
    exact ⟨d, rfl, h⟩
  | statement hx =>
    cases hx with
    | @instruction i hf =>
      obtain ⟨t, us, rfl, ht, hus⟩ := List.map_eq_cons_iff.1 hvs
      obtain ⟨j, hj, hu⟩ := Line.instruction_of_values hf line hus
      have hadd := h.add (.instruction j) t.location
      rw [Content.unplaced, hu] at hadd
      refine ⟨_, ?_, hadd⟩
      unfold Draft.statement
      simp only [ht, hj, Line.nothingLeft, bind, Except.bind]
      rfl
    | @text literal bytes hr =>
      obtain ⟨t, us, rfl, ht, hus⟩ := List.map_eq_cons_iff.1 hvs
      obtain ⟨u, ws, rfl, hlit, hws⟩ := List.map_eq_cons_iff.1 hus
      rw [List.map_eq_nil_iff.1 hws]
      refine ⟨_, ?_, h.add (.binary bytes) t.location⟩
      unfold Draft.statement Line.bytes
      simp only [ht, hlit, hr, Line.nothingLeft, bind, Except.bind]
      rfl
    | @word value hlt =>
      obtain ⟨t, us, rfl, ht, hus⟩ := List.map_eq_cons_iff.1 hvs
      obtain ⟨u, ws, rfl, hnum, hws⟩ := List.map_eq_cons_iff.1 hus
      rw [List.map_eq_nil_iff.1 hws]
      refine ⟨_, ?_, h.add (.binary (Word.toBytes (UInt16.ofNat value))) t.location⟩
      unfold Draft.statement Line.bytes Line.word
      simp only [ht, hnum, if_pos hlt, Except.map, Line.nothingLeft, bind, Except.bind]
      rfl
    | title name =>
      obtain ⟨t, us, rfl, ht, hus⟩ := List.map_eq_cons_iff.1 hvs
      obtain ⟨u, ws, rfl, hstr, hws⟩ := List.map_eq_cons_iff.1 hus
      rw [List.map_eq_nil_iff.1 hws]
      have hfirst : Item.titles xs = [] := by
        rw [Item.titles_append, List.length_append] at hone
        rw [← List.length_eq_zero_iff]
        exact Nat.le_zero.1 (Nat.le_of_succ_le_succ hone)
      obtain ⟨d', hd, hh⟩ := h.setName name t.location hfirst
      refine ⟨d', ?_, hh⟩
      unfold Draft.statement Line.documentName
      simp only [ht, hstr, hd, Line.nothingLeft, bind, Except.bind]
      rfl

/-- A label that starts a line is told from a statement by its colon. -/
theorem label?_of_bareLineSays {ts : List Token} {xs : List Item}
    (h : BareLineSays (ts.map Token.value) xs) : Line.label? ts = none := by
  generalize hvs : ts.map Token.value = vs at h
  have hhead : ∀ name, vs.head? ≠ some (.identifier name) := by
    intro name
    cases h with
    | nothing => simp
    | statement hx => cases hx <;> simp [Instruction.meanings]
  unfold Line.label?
  split
  · rename_i t u us
    split
    · rename_i name hname
      exact absurd (by rw [← hvs, ← hname]; rfl) (hhead name)
    · rfl
  · rfl

/-- A line adds its items to those before it. -/
theorem Holds.line {d : Draft} {xs ys : List Item} (h : d.Holds xs) (l : Line)
    (hl : LineSays l.values ys) (hdistinct : (Item.labels (xs ++ ys)).Nodup)
    (hone : (Item.titles (xs ++ ys)).length ≤ 1) :
    ∃ d', d.line l = .ok d' ∧ d'.Holds (xs ++ ys) := by
  obtain ⟨ts, stop⟩ := l
  unfold Line.values at hl
  generalize hvs : ts.map Token.value = vs at hl
  cases hl with
  | bare hb =>
    subst hvs
    unfold Draft.line
    rw [label?_of_bareLineSays hb]
    exact h.bareLine _ hb hone
  | @labelled ws zs name hb =>
    obtain ⟨t, us, rfl, ht, hus⟩ := List.map_eq_cons_iff.1 hvs
    obtain ⟨u, us, rfl, hu, rfl⟩ := List.map_eq_cons_iff.1 hus
    have hlabel : Line.label? (t :: u :: us) = some (⟨name, t.location⟩, us) := by
      unfold Line.label?
      simp only [ht, hu, if_true]
    have hfresh : name ∉ Item.labels xs := by
      rw [Item.labels_append, List.nodup_append] at hdistinct
      intro hm
      exact hdistinct.2.2 name hm name List.mem_cons_self rfl
    obtain ⟨d₁, hd₁, h₁⟩ := h.define ⟨name, t.location⟩ hfresh
    rw [List.append_cons] at hone ⊢
    obtain ⟨d₂, hd₂, h₂⟩ := h₁.bareLine ⟨t :: u :: us, stop⟩ hb hone
    refine ⟨d₂, ?_, h₂⟩
    unfold Draft.line
    simp only [hlabel, hd₁, bind, Except.bind]
    exact hd₂

/-- Lines add their items to those before them. -/
theorem Holds.lines {d : Draft} {xs : List Item} (h : d.Holds xs) {lines : List Line}
    {said : List (List Item)} (hl : List.Forall₂ LineSays (lines.map Line.values) said)
    (hdistinct : (Item.labels (xs ++ said.flatten)).Nodup)
    (hone : (Item.titles (xs ++ said.flatten)).length ≤ 1) :
    ∃ d', lines.foldlM Draft.line d = .ok d' ∧ d'.Holds (xs ++ said.flatten) := by
  induction lines generalizing d xs said with
  | nil =>
    cases hl
    rw [List.flatten_nil, List.append_nil]
    exact ⟨d, rfl, h⟩
  | cons l ls ih =>
    cases hl with
    | @cons _ ys _ said hy hl =>
      rw [List.flatten_cons, ← List.append_assoc] at hdistinct hone ⊢
      -- What holds for all items holds for those up to this line.
      have hd := hdistinct
      rw [Item.labels_append] at hd
      have ho := hone
      rw [Item.titles_append, List.length_append] at ho
      obtain ⟨d₁, hd₁, h₁⟩ := h.line l hy (List.nodup_append.1 hd).1 (by omega)
      obtain ⟨d₂, hd₂, h₂⟩ := ih h₁ hl hdistinct hone
      refine ⟨d₂, ?_, h₂⟩
      rw [List.foldlM_cons, hd₁]
      exact hd₂

end Draft

/-- A row of lines that say items is read as the nodes of the items. -/
theorem Program.draft_of_lines {lines : List Line} {said : List (List Item)}
    (hl : List.Forall₂ LineSays (lines.map Line.values) said)
    (hdistinct : (Item.labels said.flatten).Nodup)
    (hone : (Item.titles said.flatten).length ≤ 1) :
    ∃ p, (lines.foldlM Draft.line .empty).map Draft.finish = .ok p ∧
      p.name.toList = Item.titles said.flatten ∧
      p.nodes.map Node.unplaced = Item.nodesFrom none said.flatten := by
  obtain ⟨d, hd, h⟩ := Draft.holds_empty.lines hl hdistinct hone
  rw [List.nil_append] at h
  refine ⟨d.finish, ?_, h.name, ?_⟩
  · rw [hd]
    rfl
  · have hn := h.nodes []
    rw [List.append_nil] at hn
    rw [hn]
    unfold Draft.finish Draft.anchored
    cases hp : d.pending with
    | none => simp [Item.nodesFrom]
    | some l =>
      simp only [List.reverse_cons, List.map_append]
      rfl

end WordMachine
