-- Lines of tokens. Leaving out the ends of empty lines leaves the other lines
-- as they are, and an empty line says nothing, so a program may be read as if
-- no line end had been left out.
import WordMachine.Program.Parsing
import WordMachine.Source.Reading

namespace WordMachine

/-! ## Empty lines -/

namespace Token

/-- The tokens without the ends of empty lines. Nothing stands on the first line so
far if `empty` is set. -/
def withoutEmptyLines (empty : Bool) : List Token → List Token
  | [] => []
  | t :: ts =>
    if t.endsLine && empty then withoutEmptyLines true ts
    else t :: withoutEmptyLines t.endsLine ts

theorem foldl_keep (done ts : List Token) :
    ts.foldl keep done = (withoutEmptyLines (done.head?.all endsLine) ts).reverse ++ done := by
  induction ts generalizing done with
  | nil => rfl
  | cons t ts ih =>
    rw [List.foldl_cons, ih]
    by_cases h : (t.endsLine && done.head?.all endsLine) = true
    · rw [keep, withoutEmptyLines, if_pos h, if_pos h, (Bool.and_eq_true_iff.1 h).2]
    · rw [keep, withoutEmptyLines, if_neg h, if_neg h]
      simp

theorem dropEmptyLines_eq (ts : List Token) : dropEmptyLines ts = withoutEmptyLines true ts := by
  unfold dropEmptyLines
  rw [foldl_keep, List.append_nil, List.reverse_reverse]
  rfl

theorem withoutEmptyLines_sublist (empty : Bool) (ts : List Token) :
    (withoutEmptyLines empty ts).Sublist ts := by
  induction ts generalizing empty with
  | nil => exact .slnil
  | cons t ts ih =>
    unfold withoutEmptyLines
    split
    · exact (ih true).cons t
    · exact (ih t.endsLine).cons_cons t

theorem dropEmptyLines_sublist (ts : List Token) : (dropEmptyLines ts).Sublist ts := by
  rw [dropEmptyLines_eq]
  exact withoutEmptyLines_sublist true ts

end Token

/-! ## Splitting -/

namespace Line

theorem splitFrom_eq (done : List Line) (current ts : List Token) :
    splitFrom done current ts = done.reverse ++ splitFrom [] current ts := by
  induction ts generalizing done current with
  | nil =>
    unfold splitFrom
    split <;> simp
  | cons t ts ih =>
    unfold splitFrom
    split
    · rw [ih, ih [_]]
      simp
    · exact ih done (t :: current)

theorem splitFrom_of_endsLine {t : Token} (h : t.endsLine = true) (current ts : List Token) :
    splitFrom [] current (t :: ts) = ⟨current.reverse, some t⟩ :: split ts := by
  unfold split
  rw [splitFrom, if_pos h, splitFrom_eq]
  rfl

theorem splitFrom_of_not_endsLine {t : Token} (h : t.endsLine = false) (current ts : List Token) :
    splitFrom [] current (t :: ts) = splitFrom [] (t :: current) ts := by
  rw [splitFrom, h]
  rfl

/-- The tokens up to the first line end are the first line. -/
theorem split_append {ts : List Token} {t : Token} (hts : ∀ u ∈ ts, u.endsLine = false)
    (ht : t.endsLine = true) (rest : List Token) :
    split (ts ++ t :: rest) = ⟨ts, some t⟩ :: split rest := by
  have hgen : ∀ current, splitFrom [] current (ts ++ t :: rest) =
      ⟨current.reverse ++ ts, some t⟩ :: split rest := by
    induction ts with
    | nil =>
      intro current
      rw [List.nil_append, splitFrom_of_endsLine ht, List.append_nil]
    | cons u us ih =>
      intro current
      obtain ⟨hu, hus⟩ := List.forall_mem_cons.1 hts
      rw [List.cons_append, splitFrom_of_not_endsLine hu, ih hus, List.reverse_cons,
        List.append_assoc]
      rfl
  exact hgen []

theorem splitFrom_ne_nil {current : List Token} (h : current ≠ []) (ts : List Token) :
    splitFrom [] current ts ≠ [] := by
  induction ts generalizing current with
  | nil =>
    unfold splitFrom
    simp [h]
  | cons t ts ih =>
    cases ht : t.endsLine with
    | true =>
      rw [splitFrom_of_endsLine ht]
      exact List.cons_ne_nil _ _
    | false =>
      rw [splitFrom_of_not_endsLine ht]
      exact ih (List.cons_ne_nil _ _)

theorem split_eq_nil_iff {ts : List Token} : split ts = [] ↔ ts = [] := by
  constructor
  · intro h
    cases ts with
    | nil => rfl
    | cons t ts =>
      unfold split at h
      cases ht : t.endsLine with
      | true =>
        rw [splitFrom_of_endsLine ht] at h
        cases h
      | false =>
        rw [splitFrom_of_not_endsLine ht] at h
        exact absurd h (splitFrom_ne_nil (List.cons_ne_nil _ _) ts)
  · rintro rfl
    rfl

/-- Something stands on the line. -/
def isUsed (l : Line) : Bool := !l.tokens.isEmpty

theorem splitFrom_withoutEmptyLines (current ts : List Token) :
    splitFrom [] current (Token.withoutEmptyLines current.isEmpty ts) =
      (splitFrom [] current ts).filter isUsed := by
  induction ts generalizing current with
  | nil =>
    unfold Token.withoutEmptyLines splitFrom
    split
    · rfl
    · rename_i h
      simp [isUsed, h]
  | cons t ts ih =>
    have hsplit : split (Token.withoutEmptyLines true ts) = (split ts).filter isUsed := ih []
    unfold Token.withoutEmptyLines
    cases ht : t.endsLine with
    | false =>
      rw [splitFrom_of_not_endsLine ht, ← ih (t :: current)]
      simp only [Bool.false_and, Bool.false_eq_true, if_false]
      exact splitFrom_of_not_endsLine ht _ _
    | true =>
      rw [splitFrom_of_endsLine ht]
      cases current with
      | nil => exact hsplit
      | cons u us =>
        simp only [List.isEmpty_cons, Bool.and_false, Bool.false_eq_true, if_false]
        rw [splitFrom_of_endsLine ht, hsplit, List.filter_cons_of_pos]
        simp [isUsed]

/-- Leaving out the ends of empty lines leaves out just the empty lines. -/
theorem split_dropEmptyLines (ts : List Token) :
    split (Token.dropEmptyLines ts) = (split ts).filter isUsed := by
  rw [Token.dropEmptyLines_eq]
  exact splitFrom_withoutEmptyLines [] ts

/-- What the tokens of the line mean. -/
def values (l : Line) : List TokenValue := l.tokens.map Token.value

/-- Lines that all have an end come back from their meanings. -/
theorem values_of_split {ts : List Token} {lines : List (List TokenValue)}
    (h : ts.map Token.value = lines.flatMap (· ++ [.endOfLine]))
    (hl : ∀ vs ∈ lines, .endOfLine ∉ vs) : (split ts).map values = lines := by
  induction lines generalizing ts with
  | nil =>
    rw [List.flatMap_nil, List.map_eq_nil_iff] at h
    rw [h]
    rfl
  | cons vs lines ih =>
    obtain ⟨hvs, hrest⟩ := List.forall_mem_cons.1 hl
    rw [List.flatMap_cons, List.append_assoc, List.map_eq_append_iff] at h
    obtain ⟨us, ws, rfl, hus, hws⟩ := h
    rw [List.singleton_append, List.map_eq_cons_iff] at hws
    obtain ⟨t, rest, rfl, ht, hr⟩ := hws
    have hnone : ∀ u ∈ us, u.endsLine = false := by
      intro u hu
      unfold Token.endsLine
      rw [beq_eq_false_iff_ne]
      intro he
      exact hvs (hus ▸ List.mem_map.2 ⟨u, hu, he⟩)
    have hend : t.endsLine = true := by
      unfold Token.endsLine
      rw [ht]
      rfl
    rw [split_append hnone hend, List.map_cons, ih hr hrest]
    unfold values
    rw [hus]

/-- The lines are what stands between the line ends, but behind a last line end there is
no more line. -/
theorem splitOn_values (ts : List Token) : ∃ tail, (tail = [] ∨ tail = [[]]) ∧
    (ts.map Token.value).splitOn .endOfLine = (split ts).map values ++ tail := by
  have hgen : ∀ current : List Token, (∀ u ∈ current, u.endsLine = false) →
      ∃ tail, (tail = [] ∨ tail = [[]]) ∧
        ((current.reverse ++ ts).map Token.value).splitOn .endOfLine =
          (splitFrom [] current ts).map values ++ tail := by
    have hnone : ∀ us : List Token, (∀ u ∈ us, u.endsLine = false) →
        .endOfLine ∉ us.reverse.map Token.value := by
      intro us hus hm
      obtain ⟨u, hu, he⟩ := List.mem_map.1 hm
      have hend := hus u (List.mem_reverse.1 hu)
      unfold Token.endsLine at hend
      rw [he] at hend
      cases hend
    induction ts with
    | nil =>
      intro current hcurrent
      rw [List.append_nil, List.splitOn_eq_singleton (hnone current hcurrent)]
      cases current with
      | nil => exact ⟨[[]], .inr rfl, rfl⟩
      | cons u us => exact ⟨[], .inl rfl, rfl⟩
    | cons t ts ih =>
      intro current hcurrent
      cases ht : t.endsLine with
      | true =>
        obtain ⟨tail, htail, hsplit⟩ := ih [] (by simp)
        have hvalue : t.value = .endOfLine := eq_of_beq ht
        refine ⟨tail, htail, ?_⟩
        rw [List.map_append, List.map_cons, hvalue,
          List.splitOn_append_cons_self_of_not_mem (hnone current hcurrent),
          splitFrom_of_endsLine ht, List.map_cons, List.cons_append]
        congr 1
      | false =>
        obtain ⟨tail, htail, hsplit⟩ := ih (t :: current) (List.forall_mem_cons.2 ⟨ht, hcurrent⟩)
        refine ⟨tail, htail, ?_⟩
        rw [splitFrom_of_not_endsLine ht, ← hsplit, List.reverse_cons, List.append_assoc]
        rfl
  exact hgen [] (by simp)

end Line

/-! ## Reading the lines -/

namespace Draft

theorem line_of_not_isUsed {l : Line} (h : l.isUsed = false) (d : Draft) : d.line l = .ok d := by
  obtain ⟨ts, stop⟩ := l
  cases ts with
  | nil => rfl
  | cons t ts => cases h

theorem foldlM_line_filter (lines : List Line) (d : Draft) :
    (lines.filter Line.isUsed).foldlM line d = lines.foldlM line d := by
  induction lines generalizing d with
  | nil => rfl
  | cons l ls ih =>
    rw [List.foldlM_cons]
    cases h : l.isUsed with
    | false =>
      rw [List.filter_cons_of_neg (by simp [h]), line_of_not_isUsed h, ih]
      rfl
    | true =>
      rw [List.filter_cons_of_pos h, List.foldlM_cons]
      congr 1
      funext d'
      exact ih d'

end Draft

namespace Program

theorem parse_of_ne_nil {ts : List Token} (h : ts ≠ []) :
    parse ts = ((Line.split ts).foldlM Draft.line .empty).map Draft.finish := by
  unfold parse
  rw [if_neg (by simpa using h)]

/-- Tokens without the ends of empty lines are read as all tokens are, if there is
something on some line. -/
theorem parse_dropEmptyLines {ts : List Token} (h : Token.dropEmptyLines ts ≠ []) :
    parse (Token.dropEmptyLines ts) =
      ((Line.split ts).foldlM Draft.line .empty).map Draft.finish := by
  rw [parse_of_ne_nil h, Line.split_dropEmptyLines, Draft.foldlM_line_filter]

theorem lines_of_parse {ts : List Token} {p : Program}
    (h : parse (Token.dropEmptyLines ts) = .ok p) :
    ((Line.split ts).foldlM Draft.line .empty).map Draft.finish = .ok p := by
  have hne : Token.dropEmptyLines ts ≠ [] := by
    intro he
    rw [he] at h
    cases h
  rwa [parse_dropEmptyLines hne] at h

end Program

end WordMachine
