-- Spelling. The program of a source text is the same whatever its blanks, comments and empty
-- lines are, in whichever case its reserved words are written and however its numbers are.
import WordMachine.Proofs.LabelResolution
import WordMachine.Proofs.Positions

namespace WordMachine

/-! ## Words in either case -/

/-- Every register, mnemonic and directive. -/
def reservedWords : List String := Register.all.map Register.name ++ Line.statementWords

namespace Text

theorem upperChar_toUpper (c : Char) : upperChar c.toUpper = upperChar c := by
  by_cases h : c.toNat < 128
  · apply of_toNat_lt (b := 128) ?_ h
    decide +kernel
  · rw [toUpper_of_large (Nat.le_of_not_lt h)]

theorem upperCase_toUpper (s : String) : upperCase s.toUpper = upperCase s := by
  unfold upperCase String.toUpper
  rw [String.toList_map, List.flatMap_map]
  congr 2
  funext c
  exact upperChar_toUpper c

end Text

/-- A reserved word means the same in upper and in lower case. -/
theorem TokenValue.ofName_toUpper {s : String} (h : s.toUpper ∈ reservedWords) :
    ofName s.toUpper = ofName s := by
  have hword : ofName s.toUpper ≠ .identifier s.toUpper := by
    unfold reservedWords Line.statementWords at h
    simp only [List.mem_append, List.mem_map] at h
    rcases h with ⟨r, -, hr⟩ | ⟨op, -, ho⟩ | ⟨d, -, hd⟩
    · rw [← hr, ofName_register]
      simp
    · rw [← ho, ofName_mnemonic]
      simp
    · rw [← hd]
      cases d <;> decide +kernel
  have hr : Register.ofName? s.toUpper = Register.ofName? s := by
    unfold Register.ofName?
    rw [Text.upperCase_toUpper]
  have ho : Opcode.ofMnemonic? s.toUpper = Opcode.ofMnemonic? s := by
    unfold Opcode.ofMnemonic?
    rw [Text.upperCase_toUpper]
  have hd : Directive.ofWord? s.toUpper = Directive.ofWord? s := by
    unfold Directive.ofWord?
    rw [Text.upperCase_toUpper]
  unfold ofName at hword ⊢
  rw [hr, ho, hd] at hword ⊢
  split
  · rfl
  · rename_i h1
    split
    · rfl
    · rename_i h2
      split
      · rfl
      · rename_i h3
        rw [h1, h2, h3] at hword
        exact absurd rfl hword

/-! ## Fragments that mean the same -/

namespace Fragment

/-- The number that a fragment denotes, whatever its size. -/
def numeral? (f : Fragment) : Option Nat :=
  match f.kind with
  | .hexNumber => Text.readNumeral? 16 (hexDigits f.text)
  | .number => Text.readNumeral? 10 f.text.toList
  | _ => none

/-- Two fragments that differ at most in their places, in the case of a reserved word, or in
how a number is written. -/
inductive Alike : Fragment → Fragment → Prop
  | text {f g : Fragment} (hkind : f.kind = g.kind) (htext : f.text = g.text) : Alike f g
  | reserved {f g : Fragment} (hf : f.kind = .identifier) (hg : g.kind = .identifier)
      (hcase : f.text.toUpper = g.text.toUpper) (hword : f.text.toUpper ∈ reservedWords) :
      Alike f g
  | numeral {f g : Fragment} {n : Nat} (hf : f.numeral? = some n) (hg : g.numeral? = some n) :
      Alike f g

/-- The meaning of a fragment that has one. -/
def value? (f : Fragment) : Option TokenValue := f.meaning.toOption.join

theorem value?_eq (f : Fragment) : f.value? = match f.kind with
    | .unknown | .whitespace | .comment => none
    | .endOfLine => some .endOfLine
    | .string => some (.string (stringBody f.text))
    | .symbol => (markOf? f.text).map .punctuation
    | .hexNumber => (smallNumber? 16 (hexDigits f.text)).map .number
    | .number => (smallNumber? 10 f.text.toList).map .number
    | .identifier => some (.ofName f.text) := by
  obtain ⟨kind, s, place⟩ := f
  unfold value? meaning
  cases kind with
  | symbol => cases markOf? s <;> rfl
  | hexNumber => cases smallNumber? 16 (hexDigits s) <;> rfl
  | number => cases smallNumber? 10 s.toList <;> rfl
  | _ => rfl

theorem value?_of_numeral {f : Fragment} {n : Nat} (h : f.numeral? = some n) :
    f.value? = ((some n).filter (· < UInt32.size)).map .number := by
  unfold numeral? at h
  rw [value?_eq]
  split at h <;> rename_i hk
  · simp only [hk, smallNumber?, h]
  · simp only [hk, smallNumber?, h]
  · cases h

/-- Fragments that are alike have the same meaning, or none of them has one. -/
theorem Alike.value?_eq {f g : Fragment} (h : f.Alike g) : f.value? = g.value? := by
  cases h with
  | text hkind htext => rw [f.value?_eq, g.value?_eq, hkind, htext]
  | reserved hf hg hcase hword =>
    rw [f.value?_eq, g.value?_eq, hf, hg]
    simp only
    rw [← TokenValue.ofName_toUpper hword, hcase, TokenValue.ofName_toUpper (hcase ▸ hword)]
  | numeral hf hg => rw [value?_of_numeral hf, value?_of_numeral hg]

/-- Blanks and comments. -/
def isSilent (f : Fragment) : Bool := f.kind == .whitespace || f.kind == .comment

/-- The fragments that stand on the lines of a text, without blanks and comments, and
without the lines on which there are no others. -/
def lines (fs : List Fragment) : List (List Fragment) :=
  ((fs.filter (!·.isSilent)).splitOnP (·.kind == .endOfLine)).filter (!·.isEmpty)

theorem token?_of_isSilent {f : Fragment} (h : f.isSilent = true) : f.token? = .ok none := by
  unfold isSilent at h
  rw [Bool.or_eq_true, beq_iff_eq, beq_iff_eq] at h
  unfold token? meaning
  rcases h with h | h <;> rw [h] <;> rfl

/-- A fragment that is no blank and no comment has a token if it has a meaning. -/
theorem token?_of_not_isSilent {f : Fragment} (h : f.isSilent = false) {t : Option Token} :
    f.token? = .ok t ↔ ∃ v, f.value? = some v ∧ t = some ⟨v, f⟩ := by
  have hsome : ∀ v, f.meaning = .ok v → v.isSome := by
    intro v hv
    obtain ⟨kind, s, place⟩ := f
    unfold meaning at hv
    cases kind with
    | whitespace | comment => cases h
    | symbol | hexNumber | number =>
      simp only at hv
      split at hv <;> cases hv
      rfl
    | _ => cases hv <;> rfl
  unfold token? value?
  cases hm : f.meaning with
  | error e => simp [Except.map, Except.toOption]
  | ok v =>
    obtain ⟨w, rfl⟩ := Option.isSome_iff_exists.1 (hsome v hm)
    simp [Except.map, Except.toOption, eq_comm]

/-- The tokens of a row of fragments are those of the fragments that are no blanks and no
comments. There are such tokens if each of these has a meaning. -/
theorem tokens_eq_ok_iff {fs : List Fragment} {us : List Token} :
    (fs.mapM token?).map (·.filterMap id) = .ok us ↔
      us.map Token.source = fs.filter (!·.isSilent) ∧ ∀ t ∈ us, t.source.value? = some t.value := by
  induction fs generalizing us with
  | nil =>
    rw [List.filter_nil, List.map_eq_nil_iff]
    constructor
    · intro h
      cases h
      simp
    · rintro ⟨rfl, -⟩
      rfl
  | cons f fs ih =>
    cases hf : f.isSilent with
    | true =>
      rw [List.filter_cons_of_neg (by simp [hf]), ← ih, List.mapM_cons, token?_of_isSilent hf]
      cases fs.mapM token? <;> rfl
    | false =>
      rw [List.filter_cons_of_pos (by simp [hf]), List.mapM_cons]
      simp only [map_eq_ok_iff, bind_eq_ok_iff, pure_eq_ok_iff, token?_of_not_isSilent hf]
      constructor
      · rintro ⟨_, ⟨t, ⟨v, hv, rfl⟩, found, hfound, rfl⟩, rfl⟩
        obtain ⟨hs, hvalues⟩ := ih.1 (map_eq_ok_iff.2 ⟨found, hfound, rfl⟩)
        refine ⟨congrArg (f :: ·) hs, ?_⟩
        exact List.forall_mem_cons.2 ⟨hv, hvalues⟩
      · rintro ⟨hs, hvalues⟩
        obtain ⟨t, ts, rfl, rfl, hts⟩ := List.map_eq_cons_iff.1 hs
        obtain ⟨ht, hvalues⟩ := List.forall_mem_cons.1 hvalues
        obtain ⟨found, hfound, rfl⟩ := map_eq_ok_iff.1 (ih.2 ⟨hts, hvalues⟩)
        exact ⟨some t :: found, ⟨some t, ⟨t.value, ht, rfl⟩, found, hfound, rfl⟩, rfl⟩

theorem value?_eq_endOfLine_iff {f : Fragment} :
    f.value? = some .endOfLine ↔ f.kind = .endOfLine := by
  have hname : TokenValue.ofName f.text ≠ .endOfLine := by
    rcases TokenValue.ofName_cases f.text with ⟨r, h⟩ | ⟨op, h⟩ | ⟨d, h⟩ | h <;> simp [h]
  rw [value?_eq]
  cases f.kind <;> simp [hname]

end Fragment

namespace Token

/-- A token is a line end just if its fragment is one. -/
theorem endsLine_of_value {t : Token} (h : t.source.value? = some t.value) :
    (t.source.kind == .endOfLine) = t.endsLine := by
  unfold endsLine
  rw [Bool.eq_iff_iff, beq_iff_eq, beq_iff_eq, ← Fragment.value?_eq_endOfLine_iff, h,
    Option.some_inj]

/-- There are tokens if there are fragments and each that is no blank and no comment has a
meaning. -/
theorem ofFragments_eq_ok_iff {fs : List Fragment} {ts : List Token} :
    ofFragments fs = .ok ts ↔ fs ≠ [] ∧ ∃ us : List Token,
      us.map source = fs.filter (!·.isSilent) ∧ (∀ t ∈ us, t.source.value? = some t.value) ∧
        ts = dropEmptyLines us := by
  unfold ofFragments
  cases fs with
  | nil => simp
  | cons f fs =>
    rw [List.isEmpty_cons, if_neg (by simp), map_eq_ok_iff]
    constructor
    · rintro ⟨found, hfound, rfl⟩
      obtain ⟨hs, hv⟩ := Fragment.tokens_eq_ok_iff.1 (map_eq_ok_iff.2 ⟨found, hfound, rfl⟩)
      exact ⟨List.cons_ne_nil f fs, _, hs, hv, rfl⟩
    · rintro ⟨-, us, hs, hv, rfl⟩
      obtain ⟨found, hfound, rfl⟩ := map_eq_ok_iff.1 (Fragment.tokens_eq_ok_iff.2 ⟨hs, hv⟩)
      exact ⟨found, hfound, rfl⟩

/-- Each token comes from a fragment and means what this does. -/
theorem source_of_ofFragments {fs : List Fragment} {ts : List Token}
    (h : ofFragments fs = .ok ts) {t : Token} (ht : t ∈ ts) :
    t.source ∈ fs ∧ t.source.value? = some t.value := by
  obtain ⟨-, us, hs, hv, rfl⟩ := ofFragments_eq_ok_iff.1 h
  have hm := (dropEmptyLines_sublist us).subset ht
  have hmem : t.source ∈ fs.filter (!·.isSilent) := hs ▸ List.mem_map_of_mem hm
  exact ⟨(List.mem_filter.1 hmem).1, hv t hm⟩

end Token

namespace Fragment

/-! ## Lines of fragments and lines of tokens -/

theorem map_splitOnP {α β : Type} {p : α → Bool} {q : β → Bool} {f : α → β} {xs : List α}
    (h : ∀ x ∈ xs, q (f x) = p x) : (xs.splitOnP p).map (·.map f) = (xs.map f).splitOnP q := by
  induction xs with
  | nil => rfl
  | cons x xs ih =>
    obtain ⟨hx, hxs⟩ := List.forall_mem_cons.1 h
    rw [List.map_cons, List.splitOnP_cons_eq_if_modifyHead, List.splitOnP_cons_eq_if_modifyHead, hx,
      ← ih hxs]
    split
    · rfl
    · cases xs.splitOnP p <;> rfl

theorem flatten_splitOnP {α : Type} (p : α → Bool) (xs : List α) :
    (xs.splitOnP p).flatten = xs.filter (!p ·) := by
  induction xs with
  | nil => rfl
  | cons x xs ih =>
    rw [List.splitOnP_cons_eq_if_modifyHead]
    cases hx : p x with
    | true => simpa [hx] using ih
    | false =>
      rw [List.filter_cons_of_pos (by simp [hx]), ← ih]
      cases hs : xs.splitOnP p with
      | nil => simp at hs
      | cons l ls => rfl

theorem filter_map_map {α β : Type} (f : α → β) (lines : List (List α)) :
    (lines.map (·.map f)).filter (!·.isEmpty) = (lines.filter (!·.isEmpty)).map (·.map f) := by
  rw [List.filter_map]
  congr 2
  funext l
  simp

/-- The lines of the tokens mean what those of their fragments do. -/
theorem map_value?_lines {fs : List Fragment} {us : List Token}
    (hs : us.map Token.source = fs.filter (!·.isSilent))
    (hv : ∀ t ∈ us, t.source.value? = some t.value) :
    (lines fs).map (·.map value?) =
      ((Line.split (Token.dropEmptyLines us)).map Line.values).map (·.map some) := by
  have hvalues : (us.map Token.source).map value? = (us.map Token.value).map some := by
    rw [List.map_map, List.map_map]
    exact List.map_congr_left hv
  have hused : ∀ ls : List Line, (ls.filter Line.isUsed).map Line.values =
      (ls.map Line.values).filter (!·.isEmpty) := by
    intro ls
    rw [List.filter_map]
    congr 2
    funext l
    simp [Line.isUsed, Line.values]
  obtain ⟨tail, htail, hsplit⟩ := Line.splitOn_values us
  have hrows : ((us.map Token.value).splitOn .endOfLine).filter (!·.isEmpty) =
      ((Line.split us).map Line.values).filter (!·.isEmpty) := by
    rw [hsplit, List.filter_append]
    rcases htail with rfl | rfl <;> simp
  rw [Line.split_dropEmptyLines, hused, ← hrows, ← filter_map_map, List.splitOn_eq_splitOnP,
    map_splitOnP (q := (· == some .endOfLine)) (by simp), ← hvalues]
  unfold lines
  rw [← hs, ← filter_map_map, map_splitOnP]
  intro f hf
  obtain ⟨t, ht, rfl⟩ := List.mem_map.1 hf
  rw [Bool.eq_iff_iff, beq_iff_eq, beq_iff_eq]
  exact value?_eq_endOfLine_iff

/-- Lines that are alike have the same meanings. -/
theorem map_value?_of_alike {fs gs : List Fragment}
    (h : List.Forall₂ (List.Forall₂ Alike) (lines fs) (lines gs)) :
    (lines fs).map (·.map value?) = (lines gs).map (·.map value?) := by
  have hline : ∀ l m : List Fragment, List.Forall₂ Alike l m → l.map value? = m.map value? := by
    intro l m hl
    rw [← List.forall₂_eq_eq_eq, List.forall₂_map_left_iff, List.forall₂_map_right_iff]
    exact hl.imp fun f g => Alike.value?_eq
  rw [← List.forall₂_eq_eq_eq, List.forall₂_map_left_iff, List.forall₂_map_right_iff]
  exact h.imp hline

theorem Alike.symm {f g : Fragment} (h : f.Alike g) : g.Alike f := by
  cases h with
  | text hkind htext => exact .text hkind.symm htext.symm
  | reserved hf hg hcase hword => exact .reserved hg hf hcase.symm (hcase ▸ hword)
  | numeral hf hg => exact .numeral hg hf

theorem forall₂_alike_symm {ls ms : List (List Fragment)}
    (h : List.Forall₂ (List.Forall₂ Alike) ls ms) : List.Forall₂ (List.Forall₂ Alike) ms ls := by
  have hline : ∀ l m : List Fragment, List.Forall₂ Alike l m → List.Forall₂ Alike m l := by
    intro l m hl
    exact (hl.imp fun f g => Alike.symm).flip
  exact (h.imp hline).flip

/-- Fragments with meanings make tokens. -/
theorem exists_tokens {fs : List Fragment} (h : ∀ f ∈ fs, f.value?.isSome) :
    ∃ us : List Token, us.map Token.source = fs ∧ ∀ t ∈ us, t.source.value? = some t.value := by
  induction fs with
  | nil => exact ⟨[], rfl, by simp⟩
  | cons f fs ih =>
    obtain ⟨hf, hfs⟩ := List.forall_mem_cons.1 h
    obtain ⟨us, rfl, hus⟩ := ih hfs
    obtain ⟨v, hv⟩ := Option.isSome_iff_exists.1 hf
    exact ⟨⟨v, f⟩ :: us, rfl, List.forall_mem_cons.2 ⟨hv, hus⟩⟩

/-- Of texts whose lines are alike, both have tokens or none has, and the lines of these mean
the same. -/
theorem tokens_of_alike {fs gs : List Fragment} {ts : List Token}
    (h : List.Forall₂ (List.Forall₂ Alike) (lines fs) (lines gs)) (hg : gs ≠ [])
    (ht : Token.ofFragments fs = .ok ts) : ∃ us, Token.ofFragments gs = .ok us ∧
      (Line.split us).map Line.values = (Line.split ts).map Line.values := by
  obtain ⟨-, found, hs, hv, rfl⟩ := Token.ofFragments_eq_ok_iff.1 ht
  have hlines := map_value?_lines hs hv
  rw [map_value?_of_alike h] at hlines
  -- What stands on a line of the other text means what its counterpart does.
  have hmeans : ∀ g ∈ gs.filter (!·.isSilent), g.value?.isSome := by
    intro g hg
    by_cases hk : g.kind = .endOfLine
    · rw [value?_eq_endOfLine_iff.2 hk]
      rfl
    · have hmem : g ∈ (lines gs).flatten := by
        unfold lines
        rw [List.flatten_filter_not_isEmpty, flatten_splitOnP, List.mem_filter]
        exact ⟨hg, by simpa using hk⟩
      obtain ⟨l, hl, hgl⟩ := List.mem_flatten.1 hmem
      have hrow : l.map value? ∈ (lines gs).map (·.map value?) := List.mem_map.2 ⟨l, hl, rfl⟩
      rw [hlines] at hrow
      obtain ⟨vs, -, hvs⟩ := List.mem_map.1 hrow
      have hvalue : g.value? ∈ l.map value? := List.mem_map.2 ⟨g, hgl, rfl⟩
      rw [← hvs] at hvalue
      obtain ⟨v, -, hvalue⟩ := List.mem_map.1 hvalue
      rw [← hvalue]
      rfl
  obtain ⟨us, hus, husv⟩ := exists_tokens hmeans
  refine ⟨Token.dropEmptyLines us, Token.ofFragments_eq_ok_iff.2 ⟨hg, us, hus, husv, rfl⟩, ?_⟩
  have hinj : Function.Injective fun vs : List TokenValue => vs.map some :=
    List.map_injective_iff.2 fun v w => Option.some.inj
  apply List.map_injective_iff.2 hinj
  rw [← map_value?_lines hus husv, hlines]

end Fragment

/-! ## Programs that are alike -/

namespace Program

/-- Programs that differ at most in the places of their nodes and their labels. -/
structure Alike (p q : Program) : Prop where
  name : q.name = p.name
  nodes : q.nodes.map Node.unplaced = p.nodes.map Node.unplaced
  labels : ∀ name, name ∈ q.labels ↔ name ∈ p.labels

theorem Alike.symm {p q : Program} (h : p.Alike q) : q.Alike p :=
  ⟨h.name.symm, h.nodes.symm, fun name => (h.labels name).symm⟩

/-- Programs that are alike have images that agree, or neither has an image. -/
theorem Alike.compile {p q : Program} (h : p.Alike q) {image : Image}
    (hc : p.compile = .ok image) : ∃ other, q.compile = .ok other ∧ other.Agrees image := by
  apply compile_of_items ?_ hc
  rw [← Node.items_map_unplaced, ← h.nodes, Node.items_map_unplaced]

theorem mem_labelMap {nodes : List Node} {name : String} :
    name ∈ labelMap nodes ↔ name ∈ Node.labelNames nodes := by
  have hnames : Node.labelNames nodes =
      ((nodes.filterMap Node.label).map fun l => (l.name, l.location)).map Prod.fst := by
    unfold Node.labelNames
    rw [List.map_map, List.map_filterMap]
    rfl
  unfold labelMap
  rw [Std.ExtTreeMap.mem_ofList, hnames, List.contains_iff_mem]

/-- Tokens whose lines mean the same make programs that are alike. -/
theorem parse_of_values {ts us : List Token}
    (h : (Line.split us).map Line.values = (Line.split ts).map Line.values) {p : Program}
    (hp : parse ts = .ok p) : ∃ q, parse us = .ok q ∧ p.Alike q := by
  have hts : ts ≠ [] := by
    rintro rfl
    cases hp
  have hus : us ≠ [] := by
    rintro rfl
    have hnil := List.map_eq_nil_iff.1 h.symm
    exact hts (Line.split_eq_nil_iff.1 hnil)
  rw [parse_of_ne_nil hts] at hp
  obtain ⟨said, hsaid, hn, ho, hname, hnodes, hlabels⟩ := says_of_draft hp
  rw [← h] at hsaid
  obtain ⟨q, hq, hqname, hqnodes⟩ := draft_of_lines hsaid hn ho
  obtain ⟨-, -, -, -, -, -, hqlabels⟩ := says_of_draft hq
  refine ⟨q, ?_, ?_, ?_, ?_⟩
  · rw [parse_of_ne_nil hus, hq]
  · have hfirst := congrArg List.head? (hqname.trans hname.symm)
    rwa [Option.head?_toList, Option.head?_toList] at hfirst
  · rw [hqnodes, hnodes]
  · intro name
    rw [hlabels, hqlabels, mem_labelMap, mem_labelMap, ← Node.labelNames_map_unplaced,
      ← Node.labelNames_map_unplaced p.nodes, hqnodes, hnodes]

end Program

/-! ## Two texts -/

/-- Layout and spelling make no difference. If the lines of two source texts have the same
fragments, up to blanks, comments, empty lines, the writing of line ends and of numbers, and
the case of reserved words, then both are programs or neither is. The programs have the same
name, nodes and labels, apart from places. Either both have an image or neither has, and the
images have the same bytes, addresses of labels, references and relocations. -/
theorem layout_and_spelling_make_no_difference {source other : String} {fs gs : List Fragment}
    (hs : Fragment.split source = .ok fs) (ho : Fragment.split other = .ok gs)
    (h : List.Forall₂ (List.Forall₂ Fragment.Alike) (Fragment.lines fs) (Fragment.lines gs)) :
    ((∃ p, Program.ofSource source = .ok p) ↔ ∃ q, Program.ofSource other = .ok q) ∧
      ∀ p q, Program.ofSource source = .ok p → Program.ofSource other = .ok q →
        p.Alike q ∧ ((∃ image, p.compile = .ok image) ↔ ∃ image, q.compile = .ok image) ∧
          ∀ image image', p.compile = .ok image → q.compile = .ok image' →
            image'.Agrees image := by
  have hparses : ∀ {source other : String} {fs gs : List Fragment},
      Fragment.split source = .ok fs → Fragment.split other = .ok gs →
      List.Forall₂ (List.Forall₂ Fragment.Alike) (Fragment.lines fs) (Fragment.lines gs) →
      ∀ p, Program.ofSource source = .ok p → ∃ q, Program.ofSource other = .ok q ∧ p.Alike q := by
    intro source other fs gs hs ho h p hp
    obtain ⟨fs', ts, hs', ht, hp⟩ := Program.ofSource_eq_ok_iff.1 hp
    rw [hs] at hs'
    cases hs'
    obtain ⟨us, hu, hvalues⟩ := Fragment.tokens_of_alike h (Fragment.ne_nil_of_split ho) ht
    obtain ⟨q, hq, halike⟩ := Program.parse_of_values hvalues hp
    exact ⟨q, Program.ofSource_eq_ok_iff.2 ⟨gs, us, ho, hu, hq⟩, halike⟩
  have hback := Fragment.forall₂_alike_symm h
  constructor
  · constructor
    · rintro ⟨p, hp⟩
      obtain ⟨q, hq, -⟩ := hparses hs ho h p hp
      exact ⟨q, hq⟩
    · rintro ⟨q, hq⟩
      obtain ⟨p, hp, -⟩ := hparses ho hs hback q hq
      exact ⟨p, hp⟩
  · intro p q hp hq
    obtain ⟨q', hq', halike⟩ := hparses hs ho h p hp
    rw [hq] at hq'
    cases hq'
    refine ⟨halike, ?_, ?_⟩
    · constructor
      · rintro ⟨image, hi⟩
        obtain ⟨image', hi', -⟩ := halike.compile hi
        exact ⟨image', hi'⟩
      · rintro ⟨image', hi'⟩
        obtain ⟨image, hi, -⟩ := halike.symm.compile hi'
        exact ⟨image, hi⟩
    · intro image image' hi hi'
      obtain ⟨found, hfound, hagrees⟩ := halike.compile hi
      rw [hi'] at hfound
      cases hfound
      exact hagrees

/-- The second text has a comment on a line of its own, a line end of two characters, the
directive in the other case and the number in the other base. -/
theorem a_comment_and_another_base_make_no_difference :
    ∃ fs gs, Fragment.split "put 0x0A" = .ok fs ∧ Fragment.split ";\r\nPUT 10" = .ok gs ∧
      List.Forall₂ (List.Forall₂ Fragment.Alike) (Fragment.lines fs) (Fragment.lines gs) ∧
      ∃ p q, Program.ofSource "put 0x0A" = .ok p ∧ Program.ofSource ";\r\nPUT 10" = .ok q ∧
        p.Alike q := by
  let put : Fragment := ⟨.identifier, "put", ⟨0, 0, 0⟩⟩
  let put' : Fragment := ⟨.identifier, "PUT", ⟨3, 1, 0⟩⟩
  let ten : Fragment := ⟨.hexNumber, "0x0A", ⟨4, 0, 4⟩⟩
  let ten' : Fragment := ⟨.number, "10", ⟨7, 1, 4⟩⟩
  have hs : (Fragment.split "put 0x0A").toOption =
      some [put, ⟨.whitespace, " ", ⟨3, 0, 3⟩⟩, ten] := by decide +kernel
  have ho : (Fragment.split ";\r\nPUT 10").toOption = some [⟨.comment, ";", ⟨0, 0, 0⟩⟩,
      ⟨.endOfLine, "\r\n", ⟨1, 0, 1⟩⟩, put', ⟨.whitespace, " ", ⟨6, 1, 3⟩⟩, ten'] := by
    decide +kernel
  rw [toOption_eq_some_iff] at hs ho
  have hcase : "put".toUpper = "PUT".toUpper := by
    rw [← String.toList_inj]
    decide +kernel
  have hword : "put".toUpper ∈ reservedWords := by decide +kernel
  have hhex : Text.readNumeral? 16 (hexDigits "0x0A") = some 10 := by decide +kernel
  have hdecimal : Text.readNumeral? 10 "10".toList = some 10 := by decide +kernel
  have hput : put.Alike put' := .reserved rfl rfl hcase hword
  have hten : ten.Alike ten' := .numeral hhex hdecimal
  have hlines : List.Forall₂ (List.Forall₂ Fragment.Alike) [[put, ten]] [[put', ten']] :=
    .cons (.cons hput (.cons hten .nil)) .nil
  obtain ⟨hboth, halike⟩ := layout_and_spelling_make_no_difference hs ho hlines
  refine ⟨_, _, hs, ho, hlines, ?_⟩
  cases hp : Program.ofSource "put 0x0A" with
  | error e =>
    have hok : (Program.ofSource "put 0x0A").isOk = true := by decide +kernel
    rw [hp] at hok
    cases hok
  | ok p =>
    obtain ⟨q, hq⟩ := hboth.1 ⟨p, hp⟩
    exact ⟨p, q, rfl, hq, (halike p q hp hq).1⟩

end WordMachine
