-- Kept lines. The tokens of a row of fragments are those of its lines, without blanks and
-- comments and without the lines on which there is nothing else. One line end stands between
-- two lines, none before the first one, and one behind the last one if the fragments have it.
import Mathlib.Data.List.Chain
import WordMachine.Proofs.Spelling

namespace WordMachine

/-! ## Lines of tokens -/

namespace Token

/-- What stands between the line ends, where something does. -/
def usedLines (ts : List Token) : List (List Token) := (ts.splitOnP endsLine).filter (!·.isEmpty)

/-- A line end cuts the lines in two rows. -/
theorem usedLines_append_cons {t : Token} (ht : t.endsLine = true) (ts us : List Token) :
    usedLines (ts ++ t :: us) = usedLines ts ++ usedLines us := by
  unfold usedLines
  rw [List.splitOnP_append_cons ts us ht, List.filter_append]

theorem usedLines_cons {t : Token} (ht : t.endsLine = true) (ts : List Token) :
    usedLines (t :: ts) = usedLines ts := usedLines_append_cons ht [] ts

theorem flatten_usedLines (ts : List Token) :
    (usedLines ts).flatten = ts.filter (!·.endsLine) := by
  unfold usedLines
  rw [List.flatten_filter_not_isEmpty, Fragment.flatten_splitOnP]

/-- There is no line end before the first token and none right behind another one. -/
structure Tidy (ts : List Token) : Prop where
  head : ∀ t, ts.head? = some t → t.endsLine = false
  isChain : ts.IsChain fun t u => t.endsLine = true → u.endsLine = false

/-! ## One more token

The tokens so far are kept with the last one first. -/

theorem keep_of_endsLine {t : Token} (ht : t.endsLine = true) (done : List Token) :
    keep done t = if done.head?.all endsLine then done else t :: done := by
  unfold keep
  rw [ht, Bool.true_and]

theorem keep_of_not_endsLine {t : Token} (ht : t.endsLine = false) (done : List Token) :
    keep done t = t :: done := by
  unfold keep
  rw [ht, Bool.false_and]
  rfl

theorem Tidy.keep {done : List Token} (h : Tidy done.reverse) (t : Token) :
    Tidy (keep done t).reverse := by
  -- A token may be added if it is no line end where the last one is, or where there is none.
  have hadd : (∀ u, done.head? = some u → u.endsLine = true → t.endsLine = false) →
      (done = [] → t.endsLine = false) → Tidy (t :: done).reverse := by
    intro hlast hfirst
    rw [List.reverse_cons]
    refine ⟨?_, List.isChain_append.2 ⟨h.isChain, .singleton t, ?_⟩⟩
    · intro u hu
      cases done with
      | nil =>
        cases hu
        exact hfirst rfl
      | cons v vs =>
        rw [List.head?_append_of_ne_nil _ (by simp)] at hu
        exact h.head u hu
    · intro u hu v hv
      rw [List.getLast?_reverse] at hu
      cases hv
      exact hlast u hu
  cases ht : t.endsLine with
  | false =>
    rw [keep_of_not_endsLine ht]
    exact hadd (fun _ _ _ => ht) fun _ => ht
  | true =>
    rw [keep_of_endsLine ht]
    cases done with
    | nil => exact h
    | cons u us =>
      cases hu : u.endsLine with
      | true =>
        rw [if_pos (by simpa using hu)]
        exact h
      | false =>
        rw [if_neg (by simp [hu])]
        refine hadd ?_ fun hn => absurd hn (List.cons_ne_nil u us)
        intro v hv he
        cases hv
        rw [hu] at he
        cases he

/-- A line end that is left out ends no line that is used. -/
theorem usedLines_keep (done : List Token) (t : Token) (ts : List Token) :
    usedLines ((keep done t).reverse ++ ts) = usedLines (done.reverse ++ t :: ts) := by
  have hadd : usedLines ((t :: done).reverse ++ ts) = usedLines (done.reverse ++ t :: ts) := by
    rw [List.reverse_cons, List.append_assoc, List.singleton_append]
  cases ht : t.endsLine with
  | false => rw [keep_of_not_endsLine ht, hadd]
  | true =>
    rw [keep_of_endsLine ht]
    cases done with
    | nil => exact (usedLines_cons ht ts).symm
    | cons u us =>
      cases hu : u.endsLine with
      | false => rw [if_neg (by simp [hu]), hadd]
      | true =>
        rw [if_pos (by simpa using hu), List.reverse_cons, List.append_assoc, List.append_assoc,
          List.singleton_append, List.singleton_append, usedLines_append_cons hu,
          usedLines_append_cons hu, usedLines_cons ht]

/-- Behind a line end the last token ends a line if there is one. -/
theorem head_keep_iff (done : List Token) (t : Token) :
    (∃ u, (keep done t).head? = some u ∧ u.endsLine = true) ↔ t.endsLine = true ∧ done ≠ [] := by
  cases ht : t.endsLine with
  | false =>
    rw [keep_of_not_endsLine ht]
    simp [ht]
  | true =>
    rw [keep_of_endsLine ht]
    cases done with
    | nil => simp
    | cons u us => cases hu : u.endsLine <;> simp [hu, ht]

/-! ## All tokens -/

theorem Tidy.foldl_keep {done : List Token} (h : Tidy done.reverse) (ts : List Token) :
    Tidy (ts.foldl Token.keep done).reverse := by
  induction ts generalizing done with
  | nil => exact h
  | cons t ts ih => exact ih (h.keep t)

theorem usedLines_foldl_keep (done ts : List Token) :
    usedLines (ts.foldl keep done).reverse = usedLines (done.reverse ++ ts) := by
  induction ts generalizing done with
  | nil => rw [List.foldl_nil, List.append_nil]
  | cons t ts ih => rw [List.foldl_cons, ih, usedLines_keep]

theorem tidy_dropEmptyLines (ts : List Token) : Tidy (dropEmptyLines ts) := by
  have hnil : Tidy ([] : List Token).reverse := ⟨by simp, .nil⟩
  exact hnil.foldl_keep ts

theorem usedLines_dropEmptyLines (ts : List Token) :
    usedLines (dropEmptyLines ts) = usedLines ts := usedLines_foldl_keep [] ts

theorem dropEmptyLines_ne_nil_iff (ts : List Token) :
    dropEmptyLines ts ≠ [] ↔ ∃ t ∈ ts, t.endsLine = false := by
  have hkept : (dropEmptyLines ts).filter (!·.endsLine) = ts.filter (!·.endsLine) := by
    rw [← flatten_usedLines, usedLines_dropEmptyLines, flatten_usedLines]
  have hmem : ∀ t, t.endsLine = false → (t ∈ dropEmptyLines ts ↔ t ∈ ts) := by
    intro t ht
    have h : t ∈ (dropEmptyLines ts).filter (!·.endsLine) ↔ t ∈ ts.filter (!·.endsLine) := by
      rw [hkept]
    simpa [List.mem_filter, ht] using h
  constructor
  · intro h
    obtain ⟨t, us, hcons⟩ := List.exists_cons_of_ne_nil h
    have ht := (tidy_dropEmptyLines ts).head t (by rw [hcons, List.head?_cons])
    exact ⟨t, (hmem t ht).1 (hcons ▸ List.mem_cons_self), ht⟩
  · rintro ⟨t, hm, ht⟩
    exact List.ne_nil_of_mem ((hmem t ht).2 hm)

/-- A line end is the last token if it was before, and there is something to end. -/
theorem getLast?_dropEmptyLines_iff (ts : List Token) :
    (∃ t, (dropEmptyLines ts).getLast? = some t ∧ t.endsLine = true) ↔
      (∃ t ∈ ts, t.endsLine = false) ∧ ∃ t, ts.getLast? = some t ∧ t.endsLine = true := by
  rcases List.eq_nil_or_concat' ts with rfl | ⟨us, t, rfl⟩
  · simp [dropEmptyLines]
  · have hlast : (dropEmptyLines (us ++ [t])).getLast? = (keep (us.foldl keep []) t).head? := by
      unfold dropEmptyLines
      rw [List.foldl_append, List.getLast?_reverse]
      rfl
    have hbefore : us.foldl keep [] ≠ [] ↔ ∃ u ∈ us, u.endsLine = false := by
      rw [← dropEmptyLines_ne_nil_iff]
      unfold dropEmptyLines
      rw [ne_eq, ne_eq, List.reverse_eq_nil_iff]
    rw [hlast, head_keep_iff, hbefore, List.getLast?_concat]
    constructor
    · rintro ⟨ht, u, hu, he⟩
      exact ⟨⟨u, List.mem_append_left [t] hu, he⟩, t, rfl, ht⟩
    · rintro ⟨⟨u, hu, he⟩, t', ht', hend⟩
      cases ht'
      rcases List.mem_append.1 hu with hu | hu
      · exact ⟨hend, u, hu, he⟩
      · rw [List.mem_singleton.1 hu, hend] at he
        cases he

end Token

/-! ## Lines of fragments -/

namespace Fragment

/-- The lines of a row of fragments, without their ends. -/
def rows (fs : List Fragment) : List (List Fragment) := fs.splitOnP (·.kind == .endOfLine)

/-- There is something on the line that is no blank and no comment. -/
def isUsed (row : List Fragment) : Bool := row.any (!·.isSilent)

/-- The fragment is no blank, no comment and no line end. -/
def standsOnLine (f : Fragment) : Bool := !f.isSilent && f.kind != .endOfLine

/-- What divides a list divides also what a filter leaves of it, if it leaves all dividers. -/
theorem splitOnP_filter {α : Type} {p q : α → Bool} (h : ∀ x, p x = true → q x = true)
    (xs : List α) : (xs.filter q).splitOnP p = (xs.splitOnP p).map (·.filter q) := by
  induction xs with
  | nil => rfl
  | cons x xs ih =>
    cases hp : p x with
    | true =>
      rw [List.filter_cons_of_pos (h x hp), List.splitOnP_cons_eq_if_modifyHead,
        List.splitOnP_cons_eq_if_modifyHead, if_pos hp, if_pos hp, ih]
      rfl
    | false =>
      rw [List.splitOnP_cons_eq_if_modifyHead (x := x), hp]
      cases hs : xs.splitOnP p with
      | nil => simp at hs
      | cons l ls =>
        rw [hs] at ih
        cases hq : q x with
        | false =>
          rw [List.filter_cons_of_neg (by simp [hq]), ih]
          simp [hq]
        | true =>
          rw [List.filter_cons_of_pos hq, List.splitOnP_cons_eq_if_modifyHead, hp, ih]
          simp [hq]

/-- The lines that are used, without blanks and comments. -/
theorem lines_eq (fs : List Fragment) :
    lines fs = ((rows fs).filter isUsed).map (·.filter (!·.isSilent)) := by
  have hend : ∀ f : Fragment, (f.kind == .endOfLine) = true → (!f.isSilent) = true := by
    intro f hf
    unfold isSilent
    rw [eq_of_beq hf]
    rfl
  unfold lines rows
  rw [splitOnP_filter hend, List.filter_map]
  congr 2
  funext row
  unfold isUsed
  rw [Function.comp_apply, Bool.not_eq_eq_eq_not, Bool.eq_iff_iff]
  simp

theorem standsOnLine_iff (f : Fragment) :
    f.standsOnLine = true ↔ f.isSilent = false ∧ f.kind ≠ .endOfLine := by
  unfold standsOnLine
  rw [Bool.and_eq_true, Bool.not_eq_true', bne_iff_ne]

theorem kind_of_not_standsOnLine {f : Fragment} (hs : f.isSilent = false)
    (h : f.standsOnLine = false) : f.kind = .endOfLine := by
  unfold standsOnLine at h
  simpa [hs] using h

/-- One of the things that pass a test is the last one. -/
theorem exists_last_of_mem {α : Type} {p : α → Bool} {xs : List α} (h : ∃ x ∈ xs, p x = true) :
    ∃ before x after, xs = before ++ x :: after ∧ p x = true ∧ ∀ y ∈ after, p y = false := by
  induction xs with
  | nil => simp at h
  | cons x xs ih =>
    cases hxs : xs.any p with
    | true =>
      obtain ⟨before, y, after, rfl, hy, hafter⟩ := ih (List.any_eq_true.1 hxs)
      exact ⟨x :: before, y, after, rfl, hy, hafter⟩
    | false =>
      have hnone : ∀ y ∈ xs, p y = false := by simpa using hxs
      obtain ⟨y, hy, hpy⟩ := h
      rcases List.mem_cons.1 hy with rfl | hy
      · exact ⟨[], y, xs, rfl, hpy, hnone⟩
      · rw [hnone y hy] at hpy
        cases hpy

/-- There is a line end behind the last fragment that stands on a line. -/
def EndsBehindLast (fs : List Fragment) : Prop :=
  ∃ before f after, fs = before ++ f :: after ∧ f.standsOnLine = true ∧
    (∀ g ∈ after, g.standsOnLine = false) ∧ ∃ g ∈ after, g.kind = .endOfLine

/-- The last fragment that means something is the last such one behind a given one, or this. -/
theorem getLast?_filter {f : Fragment} (hf : f.isSilent = false) (before after : List Fragment) :
    ((before ++ f :: after).filter (!·.isSilent)).getLast? =
      some ((after.filter (!·.isSilent)).getLast?.getD f) := by
  have hkept : (f :: after).filter (!·.isSilent) = f :: after.filter (!·.isSilent) := by simp [hf]
  rw [List.filter_append, hkept, List.getLast?_append, List.getLast?_cons]
  rfl

theorem endsBehindLast_iff (fs : List Fragment) : EndsBehindLast fs ↔
    (∃ f ∈ fs.filter (!·.isSilent), f.kind ≠ .endOfLine) ∧
      ∃ g, (fs.filter (!·.isSilent)).getLast? = some g ∧ g.kind = .endOfLine := by
  constructor
  · rintro ⟨before, f, after, rfl, hf, hafter, g, hg, hk⟩
    obtain ⟨hshown, hkind⟩ := f.standsOnLine_iff.1 hf
    rw [getLast?_filter hshown]
    refine ⟨⟨f, by simp [hshown], hkind⟩, _, rfl, ?_⟩
    cases hl : (after.filter (!·.isSilent)).getLast? with
    | none =>
      have hm : g ∈ after.filter (!·.isSilent) := by simp [hg, isSilent, hk]
      rw [List.getLast?_eq_none_iff.1 hl] at hm
      cases hm
    | some l =>
      obtain ⟨hm, hl⟩ := List.mem_filter.1 (List.mem_of_getLast? hl)
      exact kind_of_not_standsOnLine (by simpa using hl) (hafter l hm)
  · rintro ⟨⟨f, hf, hk⟩, g, hg, hgk⟩
    obtain ⟨hm, hshown⟩ := List.mem_filter.1 hf
    have hstands : f.standsOnLine = true := f.standsOnLine_iff.2 ⟨by simpa using hshown, hk⟩
    obtain ⟨before, l, after, rfl, hl, hafter⟩ := exists_last_of_mem ⟨f, hm, hstands⟩
    refine ⟨before, l, after, rfl, hl, hafter, ?_⟩
    obtain ⟨hlshown, hlkind⟩ := l.standsOnLine_iff.1 hl
    rw [getLast?_filter hlshown, Option.some_inj] at hg
    cases he : (after.filter (!·.isSilent)).getLast? with
    | none =>
      rw [he] at hg
      cases hg
      exact absurd hgk hlkind
    | some e =>
      rw [he] at hg
      cases hg
      exact ⟨e, (List.mem_filter.1 (List.mem_of_getLast? he)).1, hgk⟩

end Fragment

/-! ## Lines of both -/

/-- The tokens are tidy, and on their lines stand those of the fragments that are used. The
last token is a line end just if there is one behind all that stands on a line. -/
theorem the_tokens_are_those_of_the_used_lines {fs : List Fragment} {ts : List Token}
    (h : Token.ofFragments fs = .ok ts) :
    Token.Tidy ts ∧
      (Token.usedLines ts).map (·.map Token.source) =
        ((Fragment.rows fs).filter Fragment.isUsed).map (·.filter (!·.isSilent)) ∧
      ((∃ t, ts.getLast? = some t ∧ t.endsLine = true) ↔ Fragment.EndsBehindLast fs) := by
  obtain ⟨-, us, hsource, hvalue, rfl⟩ := Token.ofFragments_eq_ok_iff.1 h
  have hend : ∀ t ∈ us, (t.source.kind == .endOfLine) = t.endsLine :=
    fun t ht => Token.endsLine_of_value (hvalue t ht)
  refine ⟨Token.tidy_dropEmptyLines us, ?_, ?_⟩
  · rw [Token.usedLines_dropEmptyLines, ← Fragment.lines_eq, Fragment.lines, ← hsource,
      ← Fragment.map_splitOnP hend, Fragment.filter_map_map]
    rfl
  · have hkind : ∀ t ∈ us, (t.source.kind = .endOfLine ↔ t.endsLine = true) := by
      intro t ht
      rw [← hend t ht, beq_iff_eq]
    rw [Token.getLast?_dropEmptyLines_iff, Fragment.endsBehindLast_iff, ← hsource,
      List.getLast?_map]
    refine and_congr ?_ ?_
    · simp only [List.mem_map, exists_exists_and_eq_and]
      refine exists_congr fun t => and_congr_right fun ht => ?_
      rw [ne_eq, hkind t ht, Bool.not_eq_true]
    · cases hl : us.getLast? with
      | none => simp
      | some t => simp [hkind t (List.mem_of_getLast? hl)]

/-- Fragments that no text is cut into, with line ends and a string that have no characters.
Empty lines stand before, between and behind the two lines that are used. -/
def gappyFragments : List Fragment :=
  [⟨.endOfLine, "", .start⟩, ⟨.comment, ";", .start⟩, ⟨.endOfLine, "", .start⟩,
    ⟨.identifier, "NOP", .start⟩, ⟨.comment, "", .start⟩, ⟨.endOfLine, "", .start⟩,
    ⟨.whitespace, " ", .start⟩, ⟨.endOfLine, "", .start⟩, ⟨.string, "", .start⟩,
    ⟨.number, "7", .start⟩, ⟨.endOfLine, "", .start⟩, ⟨.comment, ";", .start⟩]

theorem two_lines_are_kept_of_six :
    ∃ ts, Token.ofFragments gappyFragments = .ok ts ∧ Token.Tidy ts ∧
      (Token.usedLines ts).map (·.map Token.source) =
        [[⟨.identifier, "NOP", .start⟩], [⟨.string, "", .start⟩, ⟨.number, "7", .start⟩]] ∧
      ∃ t, ts.getLast? = some t ∧ t.endsLine = true := by
  have hok : (Token.ofFragments gappyFragments).toOption =
      some [⟨.opcode .nop, .identifier, "NOP", .start⟩, ⟨.endOfLine, .endOfLine, "", .start⟩,
        ⟨.string "", .string, "", .start⟩, ⟨.number 7, .number, "7", .start⟩,
        ⟨.endOfLine, .endOfLine, "", .start⟩] := by decide +kernel
  rw [toOption_eq_some_iff] at hok
  obtain ⟨htidy, hlines, hlast⟩ := the_tokens_are_those_of_the_used_lines hok
  refine ⟨_, hok, htidy, hlines.trans (by decide), hlast.2 ?_⟩
  exact ⟨gappyFragments.take 9, ⟨.number, "7", .start⟩, gappyFragments.drop 10,
    by decide, by decide, by decide, by decide⟩

end WordMachine
