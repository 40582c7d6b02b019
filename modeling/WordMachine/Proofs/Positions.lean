-- Positions. The fragments of a source text are the text, and the place of each of them,
-- or of a character that starts none, is told by the characters before it.
import WordMachine.Proofs.Lexemes
import WordMachine.Proofs.Outcomes
import WordMachine.Source.Splitting

namespace WordMachine

/-! ## Places by the characters before them -/

namespace Location

/-- The place behind some characters at the start of a text: their number, the number of
line feeds among them, and the number of characters behind the last of these. -/
def behind (cs : List Char) : Location :=
  ⟨cs.length, cs.count '\n', (cs.reverse.takeWhile (· ≠ '\n')).length⟩

theorem line_behind (cs : List Char) : (behind cs).line = cs.count '\n' := rfl

/-- Characters without a line feed keep to the line. -/
theorem behind_append_right {ds : List Char} (h : '\n' ∉ ds) (cs : List Char) :
    behind (cs ++ ds) = (behind cs).right ds.length := by
  have hall : ∀ d ∈ ds.reverse, decide (d ≠ '\n') = true := by
    intro d hd
    rw [decide_eq_true_eq]
    rintro rfl
    exact h (List.mem_reverse.1 hd)
  unfold behind right
  rw [List.reverse_append, List.takeWhile_append_of_pos hall, List.length_append,
    List.length_append, List.count_append, List.count_eq_zero.2 h, List.length_reverse,
    Nat.add_comm ds.length]
  rfl

/-- A line feed starts a line. -/
theorem behind_append_nextLine {ds : List Char} (h : '\n' ∉ ds) (cs : List Char) :
    behind (cs ++ (ds ++ ['\n'])) = (behind cs).nextLine (ds.length + 1) := by
  have hone : (ds ++ ['\n']).count '\n' = 1 := by
    rw [List.count_append, List.count_eq_zero.2 h]
    rfl
  unfold behind nextLine
  rw [List.length_append, List.count_append, hone]
  simp

end Location

/-! ## Line feeds in fragments -/

/-- A line end has one line feed, its last character. -/
theorem FragmentKind.Fits.endOfLine_eq {chars : List Char} (h : endOfLine.Fits chars) :
    ∃ ds, '\n' ∉ ds ∧ chars = ds ++ ['\n'] := by
  cases h with
  | lineFeed => exact ⟨[], by simp, rfl⟩
  | returnLineFeed => exact ⟨['\r'], by simp, rfl⟩

/-- A fragment of another kind keeps to its line. -/
theorem FragmentKind.Fits.isInLine_of_mem {kind : FragmentKind} {chars : List Char}
    (h : kind.Fits chars) (hk : kind ≠ .endOfLine) : ∀ c ∈ chars, isInLine c = true := by
  have hclass : ∀ {p : Char → Bool} {c : Char}, p '\r' = false → p '\n' = false → p c = true →
      isInLine c = true := by
    intro p c hr hn hc
    unfold isInLine
    rw [Bool.and_eq_true, bne_iff_ne, bne_iff_ne]
    constructor
    · rintro rfl
      rw [hc] at hr
      cases hr
    · rintro rfl
      rw [hc] at hn
      cases hn
  have hall : ∀ {p : Char → Bool} {cs : List Char}, p '\r' = false → p '\n' = false →
      (∀ d ∈ cs, p d = true) → ∀ d ∈ cs, isInLine d = true := by
    intro p cs hr hn hcs d hd
    exact hclass hr hn (hcs d hd)
  cases h with
  | lineFeed => exact absurd rfl hk
  | returnLineFeed => exact absurd rfl hk
  | whitespace hc hcs => exact List.forall_mem_cons.2 ⟨hclass rfl rfl hc, hall rfl rfl hcs⟩
  | comment hcs => exact List.forall_mem_cons.2 ⟨rfl, hcs⟩
  | string hcs =>
    rw [List.forall_mem_append, List.forall_mem_cons, List.forall_mem_singleton]
    exact ⟨⟨rfl, hall rfl rfl hcs⟩, rfl⟩
  | symbol hc => exact List.forall_mem_singleton.2 (hclass rfl rfl hc)
  | hexNumber hx hne hcs =>
    refine List.forall_mem_cons.2 ⟨rfl, List.forall_mem_cons.2 ⟨?_, hall rfl rfl hcs⟩⟩
    rcases hx with rfl | rfl <;> rfl
  | number hc hcs => exact List.forall_mem_cons.2 ⟨hclass rfl rfl hc, hall rfl rfl hcs⟩
  | identifier hc hcs => exact List.forall_mem_cons.2 ⟨hclass rfl rfl hc, hall rfl rfl hcs⟩

/-- It has no line feed. -/
theorem FragmentKind.Fits.lineFeed_not_mem {kind : FragmentKind} {chars : List Char}
    (h : kind.Fits chars) (hk : kind ≠ .endOfLine) : '\n' ∉ chars :=
  fun hm => absurd (h.isInLine_of_mem hk '\n' hm) (by decide)

/-- It has no carriage return. -/
theorem FragmentKind.Fits.return_not_mem {kind : FragmentKind} {chars : List Char}
    (h : kind.Fits chars) (hk : kind ≠ .endOfLine) : '\r' ∉ chars :=
  fun hm => absurd (h.isInLine_of_mem hk '\r' hm) (by decide)

namespace Fragment

/-- The place after a lexeme is told by the characters before it and its own. -/
theorem placeAfter_behind {x : Lexeme} (h : x.kind.Fits x.chars) (cs : List Char) :
    placeAfter (.behind cs) x = .behind (cs ++ x.chars) := by
  unfold placeAfter
  split
  · rename_i hk
    rw [hk] at h
    obtain ⟨ds, hds, hchars⟩ := h.endOfLine_eq
    rw [hchars, Location.behind_append_nextLine hds, List.length_append]
    rfl
  · rename_i hk
    rw [Location.behind_append_right (h.lineFeed_not_mem hk)]

/-! ## Cutting a text -/

/-- The fragments are made of the characters, none is empty, and each stands at the place
that is told by the characters before it. Some characters come before all of them. -/
structure Cover (front cs : List Char) (fs : List Fragment) : Prop where
  flatMap_text : fs.flatMap (·.text.toList) = cs
  text_ne : ∀ f ∈ fs, f.text ≠ ""
  location_eq : ∀ before f after, fs = before ++ f :: after →
    f.location = .behind (front ++ before.flatMap (·.text.toList))

theorem cover_nil (front : List Char) : Cover front [] [] := by
  refine ⟨rfl, by simp, ?_⟩
  intro before f after he
  simp at he

theorem Cover.cons {front : List Char} {x : Lexeme} {fs : List Fragment}
    (h : Cover (front ++ x.chars) x.rest fs) (hx : x.chars ≠ []) :
    Cover front (x.chars ++ x.rest) (⟨x.kind, .ofList x.chars, .behind front⟩ :: fs) := by
  refine ⟨?_, ?_, ?_⟩
  · rw [List.flatMap_cons, h.flatMap_text, String.toList_ofList]
  · intro f hf
    rcases List.mem_cons.1 hf with rfl | hf
    · simpa using hx
    · exact h.text_ne f hf
  · intro before f after he
    cases before with
    | nil =>
      cases he
      simp
    | cons g before =>
      obtain ⟨rfl, htail⟩ := List.cons.inj he
      rw [h.location_eq before f after htail, List.flatMap_cons, String.toList_ofList,
        List.append_assoc]

/-- What is cut off covers the text, or the text goes on with a character that starts
no fragment. -/
theorem splitFrom_behind {done : List Fragment} {place : Location} {front : List Char}
    (hp : place = .behind front) (cs : List Char) :
    (∃ fs, splitFrom done place cs = .ok (done.reverse ++ fs) ∧ Cover front cs fs) ∨
      ∃ before c after, cs = before ++ c :: after ∧
        splitFrom done place cs = .error (.unknownCharacter c (.behind (front ++ before))) := by
  fun_induction splitFrom done place cs generalizing front with
  | case1 done place cs x hx ih =>
    obtain ⟨rfl, hne⟩ := Lexeme.first?_chars_append hx
    have hafter : placeAfter place x = .behind (front ++ x.chars) := by
      rw [hp, placeAfter_behind (Lexeme.fits_of_first? hx)]
    rcases ih hafter with ⟨fs, hfs, hcover⟩ | ⟨before, c, after, hrest, herror⟩
    · refine .inl ⟨⟨x.kind, .ofList x.chars, place⟩ :: fs, ?_, ?_⟩
      · rw [hfs, List.reverse_cons, List.append_assoc]
        rfl
      · rw [hp]
        exact hcover.cons hne
    · refine .inr ⟨x.chars ++ before, c, after, ?_, ?_⟩
      · rw [hrest, List.append_assoc]
      · rw [herror, List.append_assoc]
  | case2 done place hx => exact .inl ⟨[], by rw [List.append_nil], cover_nil front⟩
  | case3 done place c cs hx => exact .inr ⟨[], c, cs, rfl, by rw [hp, List.append_nil]⟩

/-- A text that is not empty is cut into fragments that it is made of, none of them empty
and each at the place of its first character, or it is not cut because of a character of
it, at the place of that character. -/
theorem split_of_ne_empty {source : String} (h : source ≠ "") :
    (∃ fs, split source = .ok fs ∧ Cover [] source.toList fs) ∨
      ∃ before c after, source.toList = before ++ c :: after ∧
        split source = .error (.unknownCharacter c (.behind before)) := by
  have hsplit : split source = splitFrom [] .start source.toList := by
    unfold split
    rw [if_neg (by simpa using h)]
  rw [hsplit]
  exact @splitFrom_behind [] .start [] rfl source.toList

/-- The fragments of a text cover it. -/
theorem cover_of_split {source : String} {fs : List Fragment} (h : split source = .ok fs) :
    Cover [] source.toList fs := by
  have hsource : source ≠ "" := by
    rintro rfl
    cases h
  rcases split_of_ne_empty hsource with ⟨gs, hgs, hcover⟩ | ⟨before, c, after, -, herror⟩
  · rw [h] at hgs
    cases hgs
    exact hcover
  · rw [h] at herror
    cases herror

/-- A text that is cut has fragments. -/
theorem ne_nil_of_split {source : String} {fs : List Fragment} (h : split source = .ok fs) :
    fs ≠ [] := by
  rintro rfl
  rw [String.toList_eq_nil_iff.1 (cover_of_split h).flatMap_text.symm] at h
  cases h

end Fragment

/-! ## The whole text -/

/-- Positions are exact. The fragments of a text, put together, are the text, none of them
is empty, and each is found at the number of characters before it, on the line of the
number of line feeds before it, at the column of the number of characters since the last
of these. A character that starts no fragment is the one that the text has at the place of
the error, and its line and column are told in the same way. -/
theorem positions_are_exact {source : String} (h : source ≠ "") :
    (∀ fs, Fragment.split source = .ok fs →
      String.join (fs.map Fragment.text) = source ∧ (∀ f ∈ fs, f.text ≠ "") ∧
        ∀ before f after, fs = before ++ f :: after →
          f.location = .behind (String.join (before.map Fragment.text)).toList) ∧
    ∀ e, Fragment.split source = .error e →
      ∃ c place, e = .unknownCharacter c place ∧ source.toList[place.index]? = some c ∧
        place = .behind (source.toList.take place.index) := by
  have hjoin : ∀ fs : List Fragment,
      (String.join (fs.map Fragment.text)).toList = fs.flatMap (·.text.toList) := by
    intro fs
    induction fs with
    | nil => rfl
    | cons f fs ih => simp [ih]
  rcases Fragment.split_of_ne_empty h with ⟨fs, hfs, hcover⟩ | ⟨before, c, after, hs, herror⟩
  · constructor
    · intro fs' hfs'
      rw [hfs] at hfs'
      cases hfs'
      refine ⟨?_, hcover.text_ne, ?_⟩
      · rw [← String.toList_inj, hjoin]
        exact hcover.flatMap_text
      · intro before f after he
        rw [hjoin]
        exact hcover.location_eq before f after he
    · intro e he
      rw [hfs] at he
      cases he
  · constructor
    · intro fs hfs
      rw [herror] at hfs
      cases hfs
    · intro e he
      rw [herror] at he
      cases he
      have hindex : (Location.behind before).index = before.length := rfl
      refine ⟨c, .behind before, rfl, ?_, ?_⟩
      · simp [hs, hindex]
      · rw [hs, hindex, List.take_left]

/-- A string or a comment with a character of several bytes, and a line end of two
characters. The first text is cut into three fragments, the second one is not cut. -/
theorem positions_are_exact_across_line_end :
    ("\"ü\"\r\nA" ≠ "" ∧ ∃ fs, Fragment.split "\"ü\"\r\nA" = .ok fs ∧
      fs.map Fragment.location = [⟨0, 0, 0⟩, ⟨3, 0, 3⟩, ⟨5, 1, 0⟩] ∧
      String.join (fs.map Fragment.text) = "\"ü\"\r\nA") ∧
    (";ü\r\né" ≠ "" ∧ ∃ c place, Fragment.split ";ü\r\né" = .error (.unknownCharacter c place) ∧
      ";ü\r\né".toList[place.index]? = some c ∧
      place = .behind (";ü\r\né".toList.take place.index)) := by
  have hstring : (Fragment.split "\"ü\"\r\nA").toOption = some [⟨.string, "\"ü\"", ⟨0, 0, 0⟩⟩,
      ⟨.endOfLine, "\r\n", ⟨3, 0, 3⟩⟩, ⟨.identifier, "A", ⟨5, 1, 0⟩⟩] := by decide +kernel
  rw [toOption_eq_some_iff] at hstring
  refine ⟨⟨by decide, _, hstring, rfl, ?_⟩, by decide, ?_⟩
  · exact ((positions_are_exact (by decide)).1 _ hstring).1
  · cases he : Fragment.split ";ü\r\né" with
    | ok fs =>
      have hfails : (Fragment.split ";ü\r\né").isOk = false := by decide +kernel
      rw [he] at hfails
      cases hfails
    | error e =>
      obtain ⟨c, place, rfl, hc, hplace⟩ := (positions_are_exact (by decide)).2 e he
      exact ⟨c, place, rfl, hc, hplace⟩

end WordMachine
