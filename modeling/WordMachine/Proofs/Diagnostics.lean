-- Diagnostics. An error that has a place shows the line of the source text that it is about,
-- with a caret under the place.
import WordMachine.Proofs.ErrorPlaces
import WordMachine.Proofs.SourceLines

namespace WordMachine

/-! ## Builds that fail -/

namespace Build

variable {debug : Bool} {source : String} {e : BuildError} {fs : List Fragment}

/-- A text that cannot be cut into fragments has an error of its own. -/
theorem error_of_uncut {d : FragmentError} (hs : Fragment.split source = .error d) :
    ofSource debug source = .error e ↔ e = ⟨.fragment d, none⟩ := by
  have hfails : ofSource debug source = .error ⟨.fragment d, none⟩ := by
    unfold ofSource
    rw [hs]
    rfl
  rw [hfails, Except.error.injEq]
  exact eq_comm

/-- Any other error is that of the first stage that fails. -/
theorem error_of_cut (hs : Fragment.split source = .ok fs) :
    ofSource debug source = .error e ↔
      (∃ d, Token.ofFragments fs = .error d ∧ e = .inFragments fs (.token d)) ∨
      ∃ ts, Token.ofFragments fs = .ok ts ∧
        ((∃ d, Program.parse ts = .error d ∧ e = .inFragments fs (.program d)) ∨
          ∃ p, Program.parse ts = .ok p ∧
            ∃ d, p.compile = .error d ∧ e = .inFragments fs (.compile d)) := by
  have hpure : ∀ b : Build, (pure b : Except BuildError Build) ≠ .error e := by
    intro b hb
    cases hb
  unfold ofSource
  simp only [hs, bind_eq_error_iff, mapError_eq_error_iff, mapError_eq_ok_iff, hpure, and_false,
    exists_false, or_false, reduceCtorEq, false_and, false_or, Except.ok.injEq, exists_eq_left']

theorem diagnostic_of_error (hs : Fragment.split source = .ok fs)
    (h : ofSource debug source = .error e) : e.diagnostic =
      e.problem.location?.map fun place => Fragment.diagnostic fs place e.problem.message := by
  rcases (error_of_cut hs).1 h with ⟨d, -, rfl⟩ | ⟨ts, -, ⟨d, -, rfl⟩ | ⟨p, -, d, -, rfl⟩⟩ <;> rfl

/-- The place of an error is where a fragment starts or ends. -/
theorem isBorder_of_error (hs : Fragment.split source = .ok fs)
    (h : ofSource debug source = .error e) {place : Location}
    (hplace : e.problem.location? = some place) : Fragment.IsBorder fs place := by
  rcases (error_of_cut hs).1 h with ⟨d, hd, rfl⟩ | ⟨ts, hts, hrest⟩
  · obtain ⟨f, hf, rfl⟩ := Token.at_of_ofFragments hd hplace
    exact Fragment.isBorder_location hs hf
  · have hparse : Reports (Fragment.IsBorder fs)
        (fun p => ∀ n ∈ p.nodes, n.At (Fragment.IsBorder fs)) (Program.parse ts) := by
      refine Program.reports_parse (Fragment.isBorder_start fs) fun t ht => ?_
      obtain ⟨hf, hv⟩ := Token.source_of_ofFragments hts ht
      refine ⟨Fragment.isBorder_location hs hf, fun he => Fragment.isBorder_finish hs hf ?_⟩
      intro hk
      have hend := Token.endsLine_of_value hv
      rw [hk, he] at hend
      cases hend
    rcases hrest with ⟨d, hd, rfl⟩ | ⟨p, hp, d, hd, rfl⟩
    · cases hplace
      rw [hd] at hparse
      exact hparse
    · rw [hp] at hparse
      exact Program.at_of_compile hparse hd hplace

end Build

namespace BuildError

/-- What an error in a source text shows. -/
structure PointsInto (e : BuildError) (source : String) : Prop where
  /-- A text that cannot be cut into fragments is not shown. -/
  of_uncut : ∀ d, Fragment.split source = .error d → e = ⟨.fragment d, none⟩
  /-- Nor is a text where the problem has no place. -/
  of_no_place : e.problem.location? = none → e.diagnostic = none
  /-- Else the place is one in the text. Its line is shown behind its number and a bar, and
  under the line a caret at the column of the place. -/
  of_place : ∀ fs place, Fragment.split source = .ok fs → e.problem.location? = some place →
    place.index ≤ source.length ∧ place = .behind (source.toList.take place.index) ∧
      ∃ line number, (sourceLines source.toList)[place.line]? = some line ∧
        place.column ≤ line.length ∧ number = Text.padLeft 3 (toString (place.line + 1)) ∧
        e.diagnostic = some (number ++ "|" ++ .ofList line ++ "\n" ++
          Text.blanks (number.length + 1 + place.column) ++ "^\n" ++ e.problem.message)

end BuildError

/-- An error in a text that can be cut into fragments shows its place, if it has one, and any
other error shows none. -/
theorem a_diagnostic_points_at_the_place_of_its_error (debug : Bool) (source : String)
    (e : BuildError) (h : Build.ofSource debug source = .error e) : e.PointsInto source := by
  refine ⟨fun d hs => (Build.error_of_uncut hs).1 h, fun hplace => ?_, fun fs place hs hplace => ?_⟩
  · cases hs : Fragment.split source with
    | error d => rw [(Build.error_of_uncut hs).1 h]
    | ok fs => rw [Build.diagnostic_of_error hs h, hplace, Option.map_none]
  · have hborder := Build.isBorder_of_error hs h hplace
    obtain ⟨hindex, hbehind⟩ := hborder.eq_behind hs
    obtain ⟨line, hline, hcolumn, htext⟩ := hborder.exists_line hs
    refine ⟨hindex, hbehind, line, _, hline, hcolumn, rfl, ?_⟩
    have hwidth : (Fragment.margin place.line).length =
        (Text.padLeft 3 (toString (place.line + 1))).length + 1 := String.length_append _ _
    rw [Build.diagnostic_of_error hs h, hplace, Option.map_some, Fragment.diagnostic, hwidth,
      htext]
    rfl

/-- An addition with one operand, on the second of three lines. -/
def halfAddition : String := "NOP\n  ADD A\nHALT\n"

/-- What is said about it. -/
def halfAdditionShown : String :=
  "  2|  ADD A\n           ^\nsyntax error: expected ',', found end of line at line 2 col 8"

theorem the_caret_stands_behind_half_an_addition :
    ∃ e, Build.ofSource true halfAddition = .error e ∧ e.PointsInto halfAddition ∧
      e.problem.location? = some ⟨11, 1, 7⟩ ∧ e.diagnostic = some halfAdditionShown := by
  have hshown : (match Build.ofSource true halfAddition with
      | .ok _ => none
      | .error e => some (e.problem.location?, e.diagnostic)) =
        some (some ⟨11, 1, 7⟩, some halfAdditionShown) := by
    decide +kernel
  cases hb : Build.ofSource true halfAddition with
  | ok b =>
    rw [hb] at hshown
    cases hshown
  | error e =>
    rw [hb] at hshown
    obtain ⟨hplace, hdiagnostic⟩ := Prod.mk.inj (Option.some.inj hshown)
    have h := a_diagnostic_points_at_the_place_of_its_error true halfAddition e hb
    exact ⟨e, rfl, h, hplace, hdiagnostic⟩

end WordMachine
