-- Recognition: the parser takes no other lines than those that say items. Each
-- line that it takes adds just what it says to the draft.
import WordMachine.Proofs.Outcomes
import WordMachine.Proofs.Parsing

namespace WordMachine

/-! ## Operands -/

namespace Line

variable {line : Line} {ts rest : List Token}

theorem register_eq_ok_iff {r : Register} :
    line.register ts = .ok (r, rest) ↔ ∃ t, ts = t :: rest ∧ t.value = .register r := by
  cases ts with
  | nil => simp [register]
  | cons t ts =>
    unfold register
    simp only
    split
    · rename_i s hs
      simp [hs, and_comm, eq_comm]
    · rename_i hs
      simp only [reduceCtorEq, false_iff]
      rintro ⟨u, he, hu⟩
      cases he
      exact hs r hu

theorem comma_eq_ok_iff :
    line.comma ts = .ok rest ↔ ∃ t, ts = t :: rest ∧ t.value = .punctuation .comma := by
  cases ts with
  | nil => simp [comma]
  | cons t ts =>
    unfold comma
    split
    · rename_i hc
      simp [hc]
    · rename_i hc
      simp [hc]
      grind

theorem word_eq_ok_iff {value : Nat} {location : Location} {w : UInt16} :
    word value location = .ok w ↔ value < UInt16.size ∧ w = UInt16.ofNat value := by
  unfold word
  split
  · rename_i h
    simp [h, eq_comm]
  · rename_i h
    simp [h]

/-- An immediate is the only token that is left. -/
theorem token_of_immediate {imm : Immediate} (h : line.immediate ts = .ok imm) :
    ∃ t, ts = [t] ∧ t.value = imm.meaning := by
  unfold immediate at h
  simp only at h
  split at h
  · rename_i t
    refine ⟨t, rfl, ?_⟩
    split at h
    · rename_i value hv
      obtain ⟨w, hw, rfl⟩ := map_eq_ok_iff.1 h
      obtain ⟨hlt, rfl⟩ := word_eq_ok_iff.1 hw
      rw [hv, Immediate.meaning, UInt16.toNat_ofNat_of_lt' hlt]
    · rename_i name hv
      cases h
      exact hv
    · cases h
  · cases h

/-- The registers that are read stand at the front, with commas between them. -/
theorem tokens_of_registers {op : Opcode} {a b : Option Register}
    (h : line.registers op.shape.registers ts = .ok ((a, b), rest)) :
    a.isSome = decide (1 ≤ op.shape.registers) ∧ b.isSome = decide (2 ≤ op.shape.registers) ∧
      ∃ front, ts = front ++ rest ∧ front.map Token.value =
        ((a.toList ++ b.toList).map TokenValue.register).intersperse (.punctuation .comma) := by
  rcases Instruction.registers_cases op.shape with hr | hr | hr <;> rw [hr] at h ⊢
  · cases h
    exact ⟨rfl, rfl, [], rfl, rfl⟩
  · simp only [registers, bind_eq_ok_iff, Prod.exists, register_eq_ok_iff, pure_eq_ok_iff] at h
    obtain ⟨ra, ts', ⟨t, rfl, ht⟩, he⟩ := h
    cases he
    exact ⟨rfl, rfl, [t], rfl, by simp [ht]⟩
  · simp only [registers, bind_eq_ok_iff, Prod.exists, register_eq_ok_iff, comma_eq_ok_iff,
      pure_eq_ok_iff] at h
    obtain ⟨ra, _, ⟨t, rfl, ht⟩, _, ⟨u, rfl, hu⟩, rb, _, ⟨v, rfl, hv⟩, he⟩ := h
    cases he
    exact ⟨rfl, rfl, [t, u, v], rfl, by simp [ht, hu, hv]⟩

/-- The operands that are read are those that the operation takes. -/
theorem tokens_of_instruction {op : Opcode} {i : Instruction Immediate}
    (h : line.instruction op ts = .ok (i, rest)) :
    i.opcode = op ∧ i.Fits ∧ ∃ front, ts = front ++ rest ∧
      front.map Token.value = i.operands.intersperse (.punctuation .comma) := by
  unfold instruction at h
  simp only [bind_eq_ok_iff, Prod.exists] at h
  obtain ⟨a, b, ts', hregs, h⟩ := h
  obtain ⟨ha, hb, front, rfl, hfront⟩ := tokens_of_registers hregs
  split at h
  · rename_i himm
    -- Without a register there is no comma before the immediate.
    have hcomma : ∃ cs us imm, ts' = cs ++ us ∧ cs.map Token.value =
        (if op.shape.registers = 0 then [] else [.punctuation .comma]) ∧
        line.immediate us = .ok imm ∧ (i, rest) = (⟨op, a, b, some imm⟩, []) := by
      split at h <;> simp only [bind_eq_ok_iff, pure_eq_ok_iff, comma_eq_ok_iff] at h
      · rename_i hr
        obtain ⟨_, rfl, imm, himm, he⟩ := h
        exact ⟨[], _, imm, rfl, by simp [hr], himm, he⟩
      · rename_i hr
        obtain ⟨us, ⟨u, rfl, hu⟩, imm, himm, he⟩ := h
        exact ⟨[u], us, imm, rfl, by simp [hr, hu], himm, he⟩
    obtain ⟨cs, us, imm, rfl, hcs, hread, he⟩ := hcomma
    cases he
    obtain ⟨t, rfl, ht⟩ := token_of_immediate hread
    have hf : (⟨op, a, b, some imm⟩ : Instruction Immediate).Fits := ⟨ha, hb, himm.symm⟩
    refine ⟨rfl, hf, front ++ (cs ++ [t]), (List.append_nil _).symm, ?_⟩
    rw [operands_of_immediate hf rfl, List.map_append, List.map_append, hfront, hcs,
      List.map_singleton, ht]
  · rename_i himm
    rw [pure_eq_ok_iff] at h
    cases h
    refine ⟨rfl, ⟨ha, hb, ?_⟩, front, rfl, ?_⟩
    · simpa using himm
    · rw [hfront]
      unfold Instruction.operands
      simp

theorem bytes_eq_ok {bytes : Bytes} (h : line.bytes ts = .ok (bytes, rest)) :
    ∃ t, ts = t :: rest ∧ States [.directive .put, t.value] (.content (.binary bytes)) := by
  cases ts with
  | nil => simp [Line.bytes] at h
  | cons t ts =>
    unfold Line.bytes at h
    simp only at h
    split at h
    · rename_i literal hv
      split at h
      · rename_i read hr
        cases h
        exact ⟨t, rfl, hv ▸ .text hr⟩
      · cases h
    · rename_i value hv
      obtain ⟨w, hw, he⟩ := map_eq_ok_iff.1 h
      obtain ⟨hlt, rfl⟩ := word_eq_ok_iff.1 hw
      cases he
      exact ⟨t, rfl, hv ▸ .word hlt⟩
    · cases h

theorem documentName_eq_ok_iff {name : String} :
    line.documentName ts = .ok (name, rest) ↔ ∃ t, ts = t :: rest ∧ t.value = .string name := by
  cases ts with
  | nil => simp [documentName]
  | cons t ts =>
    unfold documentName
    simp only
    split
    · rename_i s hs
      simp [hs, and_comm, eq_comm]
    · rename_i hs
      simp only [reduceCtorEq, false_iff]
      rintro ⟨u, he, hu⟩
      cases he
      exact hs name hu

theorem nothingLeft_eq_ok_iff {u : Unit} : nothingLeft ts = .ok u ↔ ts = [] := by
  cases ts <;> simp [nothingLeft]

theorem label?_eq_some {label : Label} (h : label? ts = some (label, rest)) :
    ts.map Token.value =
      .identifier label.name :: .punctuation .colon :: rest.map Token.value := by
  unfold label? at h
  split at h
  · rename_i t u us
    split at h
    · rename_i name hname
      split at h
      · rename_i hcolon
        cases h
        simp [hname, hcolon]
      · cases h
    · cases h
  · cases h

end Line

@[simp] theorem Item.titles_content (c : Content) : titles [content c] = [] := rfl

@[simp] theorem Item.titles_label (name : String) : titles [label name] = [] := rfl

/-! ## Drafts -/

namespace Draft

/-- What a draft can gain: the second draft is the first one with what the items say. -/
inductive Gains : Draft → List Item → Draft → Prop
  | nothing (d : Draft) : Gains d [] d
  | content (d : Draft) (c : Content) (location : Location) :
      Gains d [.content c.unplaced] (d.add c location)
  | title (d : Draft) (name : String) (h : d.name = none) :
      Gains d [.title name] { d with name := some name }
  | label (d : Draft) (l : Label) (h : d.labels[l.name]? = none) :
      Gains d [.label l.name]
        { d.anchored with labels := d.labels.insert l.name l.location, pending := some l }
  | trans {d e f : Draft} {xs ys : List Item} (h : Gains d xs e) (h' : Gains e ys f) :
      Gains d (xs ++ ys) f

theorem gains_of_statement {d d' : Draft} {line : Line} {ts : List Token}
    (h : d.statement line ts = .ok d') :
    ∃ xs, BareLineSays (ts.map Token.value) xs ∧ d.Gains xs d' := by
  cases ts with
  | nil =>
    cases h
    exact ⟨[], .nothing, .nothing d⟩
  | cons t ts =>
    unfold statement at h
    simp only at h
    split at h
    · rename_i op hv
      simp only [bind_eq_ok_iff, Prod.exists, Line.nothingLeft_eq_ok_iff, pure_eq_ok_iff] at h
      obtain ⟨i, rest, hi, -, rfl, rfl⟩ := h
      obtain ⟨rfl, hf, front, rfl, hfront⟩ := Line.tokens_of_instruction hi
      refine ⟨_, .statement ?_, .content d (.instruction i) t.location⟩
      rw [List.append_nil, List.map_cons, hv, hfront]
      exact .instruction hf
    · rename_i hv
      simp only [bind_eq_ok_iff, Prod.exists, Line.nothingLeft_eq_ok_iff, pure_eq_ok_iff,
        Line.documentName_eq_ok_iff] at h
      obtain ⟨name, _, ⟨u, rfl, hu⟩, e, he, -, rfl, rfl⟩ := h
      refine ⟨[.title name], .statement ?_, ?_⟩
      · rw [List.map_cons, List.map_cons, hv, hu]
        exact .title name
      · unfold setName at he
        split at he
        · cases he
        · rename_i hn
          cases he
          exact .title d name hn
    · rename_i hv
      simp only [bind_eq_ok_iff, Prod.exists, Line.nothingLeft_eq_ok_iff, pure_eq_ok_iff] at h
      obtain ⟨bytes, _, hb, -, rfl, rfl⟩ := h
      obtain ⟨u, rfl, hs⟩ := Line.bytes_eq_ok hb
      refine ⟨_, .statement ?_, .content d (.binary bytes) t.location⟩
      rw [List.map_cons, List.map_cons, hv]
      exact hs
    · cases h
    · cases h

theorem gains_of_line {d d' : Draft} {l : Line} (h : d.line l = .ok d') :
    ∃ xs, LineSays l.values xs ∧ d.Gains xs d' := by
  unfold Draft.line at h
  unfold Line.values
  split at h
  · rename_i label ts hl
    rw [bind_eq_ok_iff] at h
    obtain ⟨e, he, h⟩ := h
    obtain ⟨xs, hs, hg⟩ := gains_of_statement h
    rw [Line.label?_eq_some hl]
    refine ⟨.label label.name :: xs, .labelled label.name hs, ?_⟩
    unfold define at he
    split at he
    · cases he
    · rename_i hn
      cases he
      exact .trans (.label d label hn) hg
  · obtain ⟨xs, hs, hg⟩ := gains_of_statement h
    exact ⟨xs, .bare hs, hg⟩

theorem gains_of_lines {d d' : Draft} {lines : List Line}
    (h : lines.foldlM Draft.line d = .ok d') :
    ∃ said, List.Forall₂ LineSays (lines.map Line.values) said ∧ d.Gains said.flatten d' := by
  induction lines generalizing d with
  | nil =>
    cases h
    exact ⟨[], .nil, .nothing _⟩
  | cons l ls ih =>
    rw [List.foldlM_cons, bind_eq_ok_iff] at h
    obtain ⟨e, he, h⟩ := h
    obtain ⟨xs, hs, hg⟩ := gains_of_line he
    obtain ⟨said, hsaid, hgains⟩ := ih h
    exact ⟨xs :: said, .cons hs hsaid, .trans hg hgains⟩

/-! ## What a draft holds -/

/-- A draft that holds items holds what it gains as well, and neither a label nor a name
of the document is said twice. -/
theorem Gains.holds {d d' : Draft} {ys : List Item} (h : d.Gains ys d') {xs : List Item}
    (hd : d.Holds xs) (hdistinct : (Item.labels xs).Nodup) (hone : (Item.titles xs).length ≤ 1) :
    d'.Holds (xs ++ ys) ∧ (Item.labels (xs ++ ys)).Nodup ∧
      (Item.titles (xs ++ ys)).length ≤ 1 := by
  induction h generalizing xs with
  | nothing d =>
    rw [List.append_nil]
    exact ⟨hd, hdistinct, hone⟩
  | content d c location =>
    refine ⟨hd.add c location, ?_, ?_⟩
    · rwa [Item.labels_append, Item.labels_content, List.append_nil]
    · rwa [Item.titles_append, Item.titles_content, List.append_nil]
  | title d name hn =>
    have htitles : Item.titles xs = [] := by rw [← hd.name, hn]; rfl
    obtain ⟨e, he, hh⟩ := hd.setName name .start htitles
    unfold setName at he
    rw [hn] at he
    cases he
    refine ⟨hh, ?_, ?_⟩
    · rwa [Item.labels_append, Item.labels_title, List.append_nil]
    · rw [Item.titles_append, htitles]
      exact Nat.le_refl 1
  | label d l hn =>
    have hfresh : l.name ∉ Item.labels xs := by
      rw [← hd.labels, Std.ExtTreeMap.mem_iff_isSome_getElem?, hn]
      simp
    obtain ⟨e, he, hh⟩ := hd.define l hfresh
    unfold define at he
    rw [hn] at he
    cases he
    refine ⟨hh, ?_, ?_⟩
    · rw [Item.labels_append, List.nodup_append]
      refine ⟨hdistinct, List.nodup_singleton l.name, ?_⟩
      intro a ha b hb hab
      rw [List.mem_singleton.1 hb] at hab
      exact hfresh (hab ▸ ha)
    · rwa [Item.titles_append, Item.titles_label, List.append_nil]
  | trans _ _ ih ih' =>
    obtain ⟨he, hn, ho⟩ := ih hd hdistinct hone
    rw [← List.append_assoc]
    exact ih' he hn ho

/-- The labels of a draft, with the one that waits for its content. -/
def defined (d : Draft) : List Label := d.nodes.reverse.filterMap Node.label ++ d.pending.toList

theorem labelMap_finish (d : Draft) : Program.labelMap d.finish.nodes =
    Std.ExtTreeMap.ofList (d.defined.map fun l => (l.name, l.location)) compare := by
  have hlabels : d.anchored.nodes.reverse.filterMap Node.label = d.defined := by
    unfold anchored defined
    cases d.pending with
    | none => simp
    | some l => simp [Node.anchor]
  unfold Program.labelMap finish
  rw [hlabels]

/-- The places of the labels are those of the labels in the nodes. -/
theorem Gains.labels_eq {d d' : Draft} {ys : List Item} (h : d.Gains ys d')
    (hd : d.labels = Program.labelMap d.finish.nodes) :
    d'.labels = Program.labelMap d'.finish.nodes := by
  induction h with
  | nothing d => exact hd
  | content d c location =>
    have hsame : (d.add c location).defined = d.defined := by
      unfold add defined
      cases d.pending <;> simp
    rw [labelMap_finish, hsame, ← labelMap_finish]
    exact hd
  | title d name hn =>
    rw [labelMap_finish] at hd ⊢
    exact hd
  | label d l hn =>
    have hmore : defined { d.anchored with
        labels := d.labels.insert l.name l.location, pending := some l } = d.defined ++ [l] := by
      unfold anchored defined
      cases d.pending with
      | none => simp
      | some waiting => simp [Node.anchor]
    rw [labelMap_finish, hmore, List.map_append, Std.ExtTreeMap.ofList_eq_foldl,
      List.foldl_append, ← Std.ExtTreeMap.ofList_eq_foldl, ← labelMap_finish, ← hd]
    rfl
  | trans _ _ ih ih' => exact ih' (ih hd)

end Draft

/-! ## Programs -/

/-- The tokens with these meanings are lines that say the items. -/
def SourceSays (vs : List TokenValue) (xs : List Item) : Prop :=
  ∃ said, List.Forall₂ LineSays (vs.splitOn .endOfLine) said ∧ xs = said.flatten

theorem LineSays.eq_nil {xs : List Item} (h : LineSays [] xs) : xs = [] := by
  cases h with
  | bare hb =>
    generalize hvs : ([] : List TokenValue) = vs at hb
    cases hb with
    | nothing => rfl
    | statement hx => cases hx <;> cases hvs

theorem LineSays.eq_nil_iff {vs : List TokenValue} {xs : List Item} (h : LineSays vs xs) :
    xs = [] ↔ vs = [] := by
  constructor
  · rintro rfl
    cases h with
    | bare hb =>
      cases hb with
      | nothing => rfl
  · rintro rfl
    exact h.eq_nil

/-- Lines say nothing just if they are empty. -/
theorem flatten_eq_nil_iff_of_lines {lines : List (List TokenValue)} {said : List (List Item)}
    (h : List.Forall₂ LineSays lines said) : said.flatten = [] ↔ ∀ vs ∈ lines, vs = [] := by
  induction h with
  | nil => simp
  | cons hx _ ih =>
    rw [List.flatten_cons, List.append_eq_nil_iff, hx.eq_nil_iff, ih, List.forall_mem_cons]

theorem lines_append_nil {lines : List (List TokenValue)} {said : List (List Item)}
    (h : List.Forall₂ LineSays (lines ++ [[]]) said) :
    ∃ said', List.Forall₂ LineSays lines said' ∧ said.flatten = said'.flatten := by
  induction lines generalizing said with
  | nil =>
    cases h with
    | cons hx hnil =>
      cases hnil
      exact ⟨[], .nil, by rw [hx.eq_nil]; rfl⟩
  | cons vs lines ih =>
    cases h with
    | cons hx hrest =>
      obtain ⟨said', hsaid', he⟩ := ih hrest
      exact ⟨_ :: said', .cons hx hsaid', by rw [List.flatten_cons, he, List.flatten_cons]⟩

/-- A line end behind all other tokens says nothing more. -/
theorem sourceSays_iff {ts : List Token} {xs : List Item} : SourceSays (ts.map Token.value) xs ↔
    ∃ said, List.Forall₂ LineSays ((Line.split ts).map Line.values) said ∧ xs = said.flatten := by
  obtain ⟨tail, htail, hsplit⟩ := Line.splitOn_values ts
  unfold SourceSays
  rw [hsplit]
  constructor
  · rintro ⟨said, hsaid, rfl⟩
    rcases htail with rfl | rfl
    · exact ⟨said, by rwa [List.append_nil] at hsaid, rfl⟩
    · exact lines_append_nil hsaid
  · rintro ⟨said, hsaid, rfl⟩
    rcases htail with rfl | rfl
    · exact ⟨said, by rwa [List.append_nil], rfl⟩
    · exact ⟨said ++ [[]], List.rel_append hsaid (.cons (.bare .nothing) .nil), by simp⟩

/-- Lines that all have an end say what each of them says. -/
theorem sourceSays_of_lines {lines : List (List TokenValue)} {said : List (List Item)}
    (h : List.Forall₂ LineSays lines said) :
    SourceSays (lines.flatMap (· ++ [.endOfLine])) said.flatten := by
  let ts : List Token := (lines.flatMap (· ++ [.endOfLine])).map fun v => ⟨v, .unknown, "", .start⟩
  have hvalues : ts.map Token.value = lines.flatMap (· ++ [.endOfLine]) := by
    rw [List.map_map]
    exact List.map_id _
  rw [← hvalues, sourceSays_iff, Line.values_of_split hvalues (endOfLine_not_mem_of_lines h)]
  exact ⟨said, h, rfl⟩

/-- Tokens say something just if one of them is no line end. -/
theorem SourceSays.dropEmptyLines_eq_nil_iff {ts : List Token} {xs : List Item}
    (h : SourceSays (ts.map Token.value) xs) : Token.dropEmptyLines ts = [] ↔ xs = [] := by
  obtain ⟨said, hsaid, rfl⟩ := sourceSays_iff.1 h
  rw [← Line.split_eq_nil_iff, Line.split_dropEmptyLines, List.filter_eq_nil_iff,
    flatten_eq_nil_iff_of_lines hsaid, List.forall_mem_map]
  simp [Line.isUsed, Line.values]

/-! ## Lines say one thing -/

/-- Two instructions with the same tokens are the same: the parser reads both from them. -/
theorem unplaced_of_meanings {i j : Instruction Immediate} (hi : i.Fits) (hj : j.Fits)
    {ts : List Token} (h : ts.map Token.value = i.meanings) (h' : ts.map Token.value = j.meanings) :
    i.unplaced = j.unplaced := by
  obtain ⟨t, us, rfl, ht, hus⟩ := List.map_eq_cons_iff.1 h
  rw [List.map_cons, Instruction.meanings, List.cons.injEq] at h'
  have hop : i.opcode = j.opcode := TokenValue.opcode.inj (ht.symm.trans h'.1)
  obtain ⟨k, hk, hki⟩ := Line.instruction_of_values hi ⟨us, none⟩ hus
  obtain ⟨l, hl, hlj⟩ := Line.instruction_of_values hj ⟨us, none⟩ h'.2
  rw [hop, hl] at hk
  cases hk
  exact hki.symm.trans hlj

theorem States.unique {ts : List Token} {x y : Item} (h : States (ts.map Token.value) x)
    (h' : States (ts.map Token.value) y) : x = y := by
  generalize hvs : ts.map Token.value = vs at h h'
  cases h with
  | @instruction i hi =>
    generalize hws : i.meanings = ws at h'
    cases h' with
    | @instruction j hj =>
      rw [unplaced_of_meanings hi hj (hvs.trans rfl) (hvs.trans hws)]
    | _ => cases hws
  | text hr =>
    cases h' with
    | text hr' =>
      rw [hr] at hr'
      cases hr'
      rfl
  | word hlt =>
    cases h' with
    | word hlt' => rfl
  | title name =>
    cases h' with
    | title name' => rfl

theorem BareLineSays.unique {ts : List Token} {xs ys : List Item}
    (h : BareLineSays (ts.map Token.value) xs) (h' : BareLineSays (ts.map Token.value) ys) :
    xs = ys := by
  have hempty : ∀ x, ¬ States [] x := by
    intro x hx
    generalize hvs : ([] : List TokenValue) = vs at hx
    cases hx <;> cases hvs
  generalize hvs : ts.map Token.value = vs at h h'
  cases h with
  | nothing =>
    cases h' with
    | nothing => rfl
    | statement hy => exact absurd hy (hempty _)
  | statement hx =>
    cases h' with
    | nothing => exact absurd hx (hempty _)
    | statement hy =>
      subst hvs
      rw [hx.unique hy]

theorem LineSays.unique {ts : List Token} {xs ys : List Item}
    (h : LineSays (ts.map Token.value) xs) (h' : LineSays (ts.map Token.value) ys) : xs = ys := by
  have hlabel : ∀ {zs name vs}, BareLineSays (ts.map Token.value) zs →
      ts.map Token.value ≠ .identifier name :: .punctuation .colon :: vs := by
    intro zs name vs hb hts
    obtain ⟨t, us, rfl, ht, hus⟩ := List.map_eq_cons_iff.1 hts
    obtain ⟨u, us, rfl, hu, -⟩ := List.map_eq_cons_iff.1 hus
    have hnone := Draft.label?_of_bareLineSays hb
    simp [Line.label?, ht, hu] at hnone
  generalize hvs : ts.map Token.value = vs at h h'
  cases h with
  | bare hb =>
    cases h' with
    | bare hb' =>
      subst hvs
      exact hb.unique hb'
    | labelled name hb' => exact absurd hvs (hlabel (hvs ▸ hb))
  | labelled name hb =>
    cases h' with
    | bare hb' => exact absurd hvs (hlabel (hvs ▸ hb'))
    | labelled name' hb' =>
      obtain ⟨t, us, rfl, -, hus⟩ := List.map_eq_cons_iff.1 hvs
      obtain ⟨u, us, rfl, -, rfl⟩ := List.map_eq_cons_iff.1 hus
      rw [hb.unique hb']

theorem SourceSays.unique {ts : List Token} {xs ys : List Item}
    (h : SourceSays (ts.map Token.value) xs) (h' : SourceSays (ts.map Token.value) ys) :
    xs = ys := by
  rw [sourceSays_iff] at h h'
  obtain ⟨said, hsaid, rfl⟩ := h
  obtain ⟨said', hsaid', rfl⟩ := h'
  generalize Line.split ts = lines at hsaid hsaid'
  congr 1
  induction lines generalizing said said' with
  | nil =>
    cases hsaid
    cases hsaid'
    rfl
  | cons l ls ih =>
    cases hsaid with
    | cons hx hxs =>
      cases hsaid' with
      | cons hy hys =>
        rw [LineSays.unique hx hy, ih _ _ hxs hys]

/-! ## The nodes of a source -/

namespace Item

/-- The nodes of items, none of which names the document. A label sits on the content that
follows it. One that another label follows, or the end, has an empty node of its own. -/
def attach : List Item → List Node
  | .label name :: .content c :: xs => ⟨c, some ⟨name, .start⟩, .start⟩ :: attach xs
  | .label name :: xs => .anchor ⟨name, .start⟩ :: attach xs
  | .content c :: xs => ⟨c, none, .start⟩ :: attach xs
  | .title _ :: xs => attach xs
  | [] => []

/-- The nodes of items. A name for the document makes no node and comes between no label
and its content. -/
def nodes (xs : List Item) : List Node := attach (xs.filter fun x => x.title?.isNone)

/-- A label that waits for its content is like one that stands before the other items. -/
theorem nodesFrom_eq (pending : Option String) (xs : List Item) :
    nodesFrom pending xs =
      attach (pending.toList.map .label ++ xs.filter fun x => x.title?.isNone) := by
  induction xs generalizing pending with
  | nil => cases pending <;> rfl
  | cons x xs ih =>
    cases x with
    | label name =>
      rw [nodesFrom, ih (some name)]
      cases pending <;> rfl
    | content c =>
      rw [nodesFrom, ih none]
      cases pending <;> rfl
    | title name =>
      rw [nodesFrom, ih pending]
      rfl

end Item

/-- A row of lines that is read says items, and the program is the one that they make. -/
theorem Program.says_of_draft {lines : List Line} {p : Program}
    (h : (lines.foldlM Draft.line .empty).map Draft.finish = .ok p) :
    ∃ said, List.Forall₂ LineSays (lines.map Line.values) said ∧
      (Item.labels said.flatten).Nodup ∧ (Item.titles said.flatten).length ≤ 1 ∧
      p.name.toList = Item.titles said.flatten ∧
      p.nodes.map Node.unplaced = Item.nodesFrom none said.flatten ∧
      p.labels = Program.labelMap p.nodes := by
  obtain ⟨d, hd, rfl⟩ := map_eq_ok_iff.1 h
  obtain ⟨said, hsaid, hg⟩ := Draft.gains_of_lines hd
  obtain ⟨-, hn, ho⟩ := hg.holds Draft.holds_empty List.nodup_nil (Nat.zero_le 1)
  have hlabels := hg.labels_eq (by rw [Draft.labelMap_finish]; rfl)
  -- The lines are accepted, so they are read as this program and no other.
  obtain ⟨q, hq, hname, hnodes⟩ := Program.draft_of_lines hsaid hn ho
  rw [h] at hq
  cases hq
  exact ⟨said, hsaid, hn, ho, hname, hnodes, hlabels⟩

/-- The parser accepts just the rows of tokens whose lines say items, if no label is defined
twice and the document is named at most once. The program has the name and the nodes of
the items, and knows where the labels in its nodes are. -/
theorem a_program_is_read_from_just_what_its_lines_say (ts : List Token) (hne : ts ≠ []) :
    ((∃ p, Program.parse ts = .ok p) ↔ ∃ xs, SourceSays (ts.map Token.value) xs ∧
      (Item.labels xs).Nodup ∧ (Item.titles xs).length ≤ 1) ∧
    ∀ p xs, Program.parse ts = .ok p → SourceSays (ts.map Token.value) xs →
      p.name.toList = Item.titles xs ∧ p.nodes.map Node.unplaced = Item.nodes xs ∧
        p.labels = Program.labelMap p.nodes := by
  rw [Program.parse_of_ne_nil hne]
  constructor
  · constructor
    · rintro ⟨p, hp⟩
      obtain ⟨said, hsaid, hn, ho, -⟩ := Program.says_of_draft hp
      exact ⟨said.flatten, sourceSays_iff.2 ⟨said, hsaid, rfl⟩, hn, ho⟩
    · rintro ⟨xs, hsays, hn, ho⟩
      obtain ⟨said, hsaid, rfl⟩ := sourceSays_iff.1 hsays
      obtain ⟨p, hp, -⟩ := Program.draft_of_lines hsaid hn ho
      exact ⟨p, hp⟩
  · intro p xs hp hsays
    obtain ⟨said, hsaid, -, -, hname, hnodes, hlabels⟩ := Program.says_of_draft hp
    have hxs := hsays.unique (sourceSays_iff.2 ⟨said, hsaid, rfl⟩)
    rw [hxs]
    exact ⟨hname, hnodes.trans (Item.nodesFrom_eq none _), hlabels⟩

/-- A label before the name of the document, a jump, and two labels that stand behind it. -/
def waitingLabels : List Token :=
  ([.identifier "a", .punctuation .colon, .endOfLine, .directive .name, .string "x", .endOfLine,
    .opcode .jump, .identifier "b", .endOfLine, .identifier "b", .punctuation .colon, .endOfLine,
    .identifier "c", .punctuation .colon] : List TokenValue).map fun v => ⟨v, .unknown, "", .start⟩

theorem the_first_label_waits_for_the_jump : waitingLabels ≠ [] ∧ ∃ p,
    Program.parse waitingLabels = .ok p ∧ p.name = some "x" ∧
      p.labels = Program.labelMap p.nodes ∧ p.nodes.map Node.unplaced =
        [⟨.instruction ⟨.jump, none, none, some (.label "b" .start)⟩, some ⟨"a", .start⟩, .start⟩,
          .anchor ⟨"b", .start⟩, .anchor ⟨"c", .start⟩] := by
  let jump : Instruction Immediate := ⟨.jump, none, none, some (.label "b" .start)⟩
  have hne : waitingLabels ≠ [] := by decide
  have hjump : States [.opcode .jump, .identifier "b"] (.content (.instruction jump)) :=
    .instruction (i := jump) ⟨rfl, rfl, rfl⟩
  have hsays : SourceSays (waitingLabels.map Token.value) [.label "a", .title "x",
      .content (.instruction jump), .label "b", .label "c"] := by
    refine ⟨[[.label "a"], [.title "x"], [.content (.instruction jump)], [.label "b"],
      [.label "c"]], ?_, rfl⟩
    exact .cons (.labelled "a" .nothing) (.cons (.bare (.statement (.title "x")))
      (.cons (.bare (.statement hjump)) (.cons (.labelled "b" .nothing)
        (.cons (.labelled "c" .nothing) .nil))))
  obtain ⟨haccepts, hreads⟩ := a_program_is_read_from_just_what_its_lines_say waitingLabels hne
  obtain ⟨p, hp⟩ := haccepts.2 ⟨_, hsays, by decide, by decide⟩
  obtain ⟨hname, hnodes, hlabels⟩ := hreads p _ hp hsays
  refine ⟨hne, p, hp, ?_, hlabels, hnodes⟩
  cases hn : p.name with
  | none =>
    rw [hn] at hname
    cases hname
  | some name =>
    rw [hn] at hname
    cases hname
    rfl

end WordMachine
