-- Lines of a source text. A line without its end is put together from its fragments again,
-- and a place between two fragments is one on its line.
import Mathlib.Data.List.Induction
import WordMachine.Assembler.Diagnostic
import WordMachine.Proofs.Positions

namespace WordMachine

/-! ## The lines of a text -/

/-- A line without the carriage return that stands before its line feed. -/
def withoutReturn (line : List Char) : List Char :=
  if line.getLast? = some '\r' then line.dropLast else line

/-- The lines of a text, without their ends. -/
def sourceLines (cs : List Char) : List (List Char) := (cs.splitOn '\n').map withoutReturn

/-- There is one line more than there are line feeds. -/
theorem length_sourceLines (cs : List Char) : (sourceLines cs).length = cs.count '\n' + 1 := by
  unfold sourceLines
  rw [List.length_map]
  induction cs with
  | nil => rfl
  | cons c cs ih =>
    rw [List.splitOn_cons_eq_if_modifyHead, List.count_cons]
    split <;> simp [ih]

theorem FragmentKind.Fits.count_lineFeed {ds : List Char} (h : endOfLine.Fits ds) :
    ds.count '\n' = 1 := by
  cases h <;> rfl

/-- A line end at the start of a text ends an empty line. -/
theorem sourceLines_lineEnd {ds : List Char} (h : FragmentKind.endOfLine.Fits ds)
    (cs : List Char) : sourceLines (ds ++ cs) = [] :: sourceLines cs := by
  cases h <;> rfl

/-- Characters that end no line are the start of the first line. -/
theorem sourceLines_append {ds : List Char} (hfeed : '\n' ∉ ds) (hreturn : '\r' ∉ ds)
    (cs : List Char) : sourceLines (ds ++ cs) = (sourceLines cs).modifyHead (ds ++ ·) := by
  have hsplit : (ds ++ cs).splitOn '\n' = (cs.splitOn '\n').modifyHead (ds ++ ·) := by
    clear hreturn
    induction ds with
    | nil =>
      rw [List.nil_append]
      cases cs.splitOn '\n' <;> rfl
    | cons d ds ih =>
      rw [List.mem_cons, not_or] at hfeed
      rw [List.cons_append, List.splitOn_cons_eq_if_modifyHead,
        if_neg (by simpa using Ne.symm hfeed.1), ih hfeed.2]
      cases cs.splitOn '\n' <;> rfl
  have hline : ∀ line, withoutReturn (ds ++ line) = ds ++ withoutReturn line := by
    intro line
    unfold withoutReturn
    cases line with
    | nil => simp [mt List.mem_of_getLast? hreturn]
    | cons c line =>
      rw [List.getLast?_append, List.dropLast_append_cons, List.getLast?_cons, Option.some_or]
      split <;> rfl
  unfold sourceLines
  rw [hsplit]
  cases cs.splitOn '\n' with
  | nil => rfl
  | cons line lines => simp [hline]

namespace Fragment

/-! ## The fragments of a line -/

/-- The fragments that a text is cut into fit their kinds. -/
theorem fits_of_split {source : String} {fs : List Fragment} (h : split source = .ok fs) :
    ∀ f ∈ fs, f.kind.Fits f.text.toList := by
  have hgen : ∀ done place cs, (∀ f ∈ done, f.kind.Fits f.text.toList) →
      splitFrom done place cs = .ok fs → ∀ f ∈ fs, f.kind.Fits f.text.toList := by
    intro done place cs
    fun_induction splitFrom done place cs with
    | case1 done place cs x hx ih =>
      intro hdone hfs
      refine ih (List.forall_mem_cons.2 ⟨?_, hdone⟩) hfs
      simpa using Lexeme.fits_of_first? hx
    | case2 done place hx =>
      intro hdone hfs
      cases hfs
      simpa using hdone
    | case3 done place c cs hx =>
      intro hdone hfs
      cases hfs
  unfold split at h
  split at h
  · cases h
  · exact hgen [] .start _ (by simp) h

theorem lineText_append (fs gs : List Fragment) (line : Nat) :
    lineText (fs ++ gs) line = lineText fs line ++ lineText gs line := by
  unfold lineText
  rw [List.filter_append, List.map_append, String.join_append]

theorem lineText_cons_of_shown {f : Fragment} {line : Nat} (hl : f.location.line = line)
    (hk : f.kind ≠ .endOfLine) (fs : List Fragment) :
    lineText (f :: fs) line = f.text ++ lineText fs line := by
  unfold lineText
  rw [List.filter_cons_of_pos (by simp [hl, hk]), List.map_cons, String.join_cons]

theorem lineText_cons_of_hidden {f : Fragment} {line : Nat}
    (h : f.location.line ≠ line ∨ f.kind = .endOfLine) (fs : List Fragment) :
    lineText (f :: fs) line = lineText fs line := by
  unfold lineText
  rw [List.filter_cons_of_neg (by rcases h with h | h <;> simp [h])]

/-- Fragments on other lines leave a line empty. -/
theorem lineText_of_ne {fs : List Fragment} {line : Nat} (h : ∀ f ∈ fs, f.location.line ≠ line) :
    lineText fs line = "" := by
  induction fs with
  | nil => rfl
  | cons f fs ih =>
    obtain ⟨hf, hfs⟩ := List.forall_mem_cons.1 h
    rw [lineText_cons_of_hidden (.inl hf), ih hfs]

namespace Cover

variable {front cs : List Char} {f : Fragment} {fs : List Fragment}

theorem location_head (h : Cover front cs (f :: fs)) : f.location = .behind front := by
  simpa using h.location_eq [] f fs rfl

theorem tail (h : Cover front cs (f :: fs)) :
    Cover (front ++ f.text.toList) (fs.flatMap (·.text.toList)) fs := by
  refine ⟨rfl, fun g hg => h.text_ne g (List.mem_cons_of_mem f hg), ?_⟩
  intro before g after he
  rw [h.location_eq (f :: before) g after (congrArg (f :: ·) he), List.flatMap_cons,
    List.append_assoc]

/-- No fragment stands on a line before the first one. -/
theorem line_le (h : Cover front cs fs) : ∀ g ∈ fs, front.count '\n' ≤ g.location.line := by
  intro g hg
  obtain ⟨before, after, he⟩ := List.append_of_mem hg
  rw [h.location_eq before g after he]
  exact (List.sublist_append_left _ _).count_le '\n'

/-- A fragment stands on the line of those before it or further down. -/
theorem line_le_of_mem {before after : List Fragment} (h : Cover front cs (before ++ f :: after)) :
    ∀ g ∈ before, g.location.line ≤ f.location.line := by
  intro g hg
  obtain ⟨as, bs, rfl⟩ := List.append_of_mem hg
  rw [h.location_eq _ f after rfl, h.location_eq as g (bs ++ f :: after) (by simp),
    List.flatMap_append, ← List.append_assoc]
  exact (List.sublist_append_left _ _).count_le '\n'

/-- The fragments of a line make up the line. The first line here is the one that the
characters before the fragments lead to. -/
theorem lineText_eq (h : Cover front cs fs) (hfits : ∀ g ∈ fs, g.kind.Fits g.text.toList)
    {n : Nat} {line : List Char} (hl : (sourceLines cs)[n]? = some line) :
    lineText fs (front.count '\n' + n) = .ofList line := by
  induction fs generalizing front cs n line with
  | nil =>
    rw [← h.flatMap_text] at hl
    cases n with
    | zero =>
      cases hl
      rfl
    | succ n => cases hl
  | cons f fs ih =>
    obtain ⟨hf, hfs⟩ := List.forall_mem_cons.1 hfits
    have hplace : f.location.line = front.count '\n' := by
      rw [h.location_head, Location.line_behind]
    rw [← h.flatMap_text, List.flatMap_cons] at hl
    by_cases hk : f.kind = .endOfLine
    · rw [hk] at hf
      rw [sourceLines_lineEnd hf] at hl
      rw [lineText_cons_of_hidden (.inr hk)]
      have hnext : (front ++ f.text.toList).count '\n' = front.count '\n' + 1 := by
        rw [List.count_append, hf.count_lineFeed]
      cases n with
      | zero =>
        cases hl
        refine lineText_of_ne fun g hg => ?_
        have hle := h.tail.line_le g hg
        omega
      | succ n =>
        rw [← ih h.tail hfs hl, hnext, Nat.add_assoc, Nat.add_comm 1]
    · rw [sourceLines_append (hf.lineFeed_not_mem hk) (hf.return_not_mem hk)] at hl
      have hsame : (front ++ f.text.toList).count '\n' = front.count '\n' := by
        rw [List.count_append, List.count_eq_zero.2 (hf.lineFeed_not_mem hk), Nat.add_zero]
      cases n with
      | zero =>
        rw [List.getElem?_modifyHead_zero, Option.map_eq_some_iff] at hl
        obtain ⟨rest, hrest, rfl⟩ := hl
        have hfirst := ih h.tail hfs hrest
        rw [hsame, Nat.add_zero] at hfirst
        rw [Nat.add_zero, lineText_cons_of_shown hplace hk, hfirst, String.ofList_append,
          String.ofList_toList]
      | succ n =>
        rw [List.getElem?_modifyHead_succ] at hl
        rw [lineText_cons_of_hidden (.inl (by omega)), ← hsame, ih h.tail hfs hl]

end Cover

/-! ## Places between fragments -/

/-- The place is behind some of the fragments and before the others. -/
def IsBorder (fs : List Fragment) (place : Location) : Prop :=
  ∃ before after, fs = before ++ after ∧ place = .behind (before.flatMap (·.text.toList))

theorem isBorder_start (fs : List Fragment) : IsBorder fs .start := ⟨[], fs, rfl, rfl⟩

variable {source : String} {f : Fragment} {fs : List Fragment} {place : Location}

/-- A fragment starts at a border. -/
theorem isBorder_location (h : split source = .ok fs) (hf : f ∈ fs) : IsBorder fs f.location := by
  obtain ⟨before, after, rfl⟩ := List.append_of_mem hf
  exact ⟨before, _, rfl, (cover_of_split h).location_eq before f after rfl⟩

/-- A fragment that ends no line ends at a border. -/
theorem isBorder_finish (h : split source = .ok fs) (hf : f ∈ fs) (hk : f.kind ≠ .endOfLine) :
    IsBorder fs f.finish := by
  obtain ⟨before, after, rfl⟩ := List.append_of_mem hf
  have hfits := fits_of_split h f hf
  refine ⟨before ++ [f], after, by rw [List.append_cons], ?_⟩
  rw [List.flatMap_append, List.flatMap_singleton,
    Location.behind_append_right (hfits.lineFeed_not_mem hk), finish,
    (cover_of_split h).location_eq before f after rfl]
  rfl

/-- The column behind some fragments is the number of characters that they leave on the
last line. -/
theorem length_lineText {before after : List Fragment} (h : split source = .ok (before ++ after)) :
    (lineText before (Location.behind (before.flatMap (·.text.toList))).line).length =
      (Location.behind (before.flatMap (·.text.toList))).column := by
  induction before using List.reverseRecOn generalizing after with
  | nil => rfl
  | append_singleton gs g ih =>
    rw [List.append_assoc, List.singleton_append] at h
    have hplace := (cover_of_split h).location_eq gs g after rfl
    rw [List.nil_append] at hplace
    have hfits : g.kind.Fits g.text.toList := fits_of_split h g (by simp)
    -- The fragments before the last one stand on its line or on lines before.
    have hup := (cover_of_split h).line_le_of_mem
    have hafter := placeAfter_behind (x := ⟨g.kind, g.text.toList, []⟩) hfits
      (gs.flatMap (·.text.toList))
    rw [List.flatMap_append, List.flatMap_singleton, ← hafter, ← hplace]
    unfold placeAfter
    split
    · have hnone : ∀ f ∈ gs ++ [g], f.location.line ≠ g.location.line + 1 := by
        intro f hf
        rcases List.mem_append.1 hf with hf | hf
        · exact Nat.ne_of_lt (Nat.lt_succ_of_le (hup f hf))
        · rw [List.mem_singleton.1 hf]
          exact Nat.ne_of_lt (Nat.lt_succ_self _)
      rw [show (g.location.nextLine _).line = g.location.line + 1 from rfl, lineText_of_ne hnone]
      rfl
    · rename_i hk
      have hlast : lineText [g] g.location.line = g.text := by
        rw [lineText_cons_of_shown rfl hk, lineText_of_ne (by simp), String.append_empty]
      rw [← hplace] at ih
      rw [show (g.location.right _).line = g.location.line from rfl, lineText_append, hlast,
        String.length_append, ih h]
      rfl

/-- A border is told by the characters before it. -/
theorem IsBorder.eq_behind (h : split source = .ok fs) (hb : IsBorder fs place) :
    place.index ≤ source.length ∧ place = .behind (source.toList.take place.index) := by
  obtain ⟨before, after, rfl, rfl⟩ := hb
  have htext := (cover_of_split h).flatMap_text
  rw [List.flatMap_append] at htext
  have hindex : (Location.behind (before.flatMap (·.text.toList))).index =
      (before.flatMap (·.text.toList)).length := rfl
  rw [hindex, ← String.length_toList, ← htext, List.take_left, List.length_append]
  exact ⟨Nat.le_add_right .., rfl⟩

/-- A border is a place on a line of the text, or at its end, and the fragments of the line
make up the line. -/
theorem IsBorder.exists_line (h : split source = .ok fs) (hb : IsBorder fs place) :
    ∃ line, (sourceLines source.toList)[place.line]? = some line ∧ place.column ≤ line.length ∧
      lineText fs place.line = .ofList line := by
  have hlt : place.line < (sourceLines source.toList).length := by
    rw [length_sourceLines, (hb.eq_behind h).2]
    exact Nat.lt_succ_of_le ((List.take_sublist ..).count_le '\n')
  have hline := List.getElem?_eq_getElem hlt
  have htext := (cover_of_split h).lineText_eq (fits_of_split h) hline
  rw [List.count_nil, Nat.zero_add] at htext
  refine ⟨_, hline, ?_, htext⟩
  -- The fragments before the border are some of those on the line.
  obtain ⟨before, after, rfl, rfl⟩ := hb
  have hlength := congrArg String.length htext
  rw [lineText_append, String.length_append, length_lineText h, String.length_ofList] at hlength
  exact Nat.le.intro hlength

end Fragment

end WordMachine
