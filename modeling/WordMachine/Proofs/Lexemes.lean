-- Lexemes as patterns. The first lexeme of a text is the longest piece at its start that
-- fits a pattern, and a text without one has no such piece.
import Mathlib.Data.List.TakeWhile
import Mathlib.Tactic.SplitIfs
import WordMachine.Proofs.Characters

namespace WordMachine

/-- The characters are a fragment of the kind. -/
inductive FragmentKind.Fits : FragmentKind → List Char → Prop
  | lineFeed : Fits .endOfLine ['\n']
  | returnLineFeed : Fits .endOfLine ['\r', '\n']
  | whitespace {c : Char} {cs : List Char} (hc : isBlank c = true)
      (hcs : ∀ d ∈ cs, isBlank d = true) : Fits .whitespace (c :: cs)
  | comment {cs : List Char} (hcs : ∀ d ∈ cs, isInLine d = true) : Fits .comment (';' :: cs)
  | string {cs : List Char} (hcs : ∀ d ∈ cs, isInString d = true) :
      Fits .string ('"' :: cs ++ ['"'])
  | symbol {c : Char} (hc : isSymbol c = true) : Fits .symbol [c]
  | hexNumber {x : Char} {cs : List Char} (hx : x = 'x' ∨ x = 'X') (hne : cs ≠ [])
      (hcs : ∀ d ∈ cs, isHexDigit d = true) : Fits .hexNumber ('0' :: x :: cs)
  | number {c : Char} {cs : List Char} (hc : c.isDigit = true)
      (hcs : ∀ d ∈ cs, d.isDigit = true) : Fits .number (c :: cs)
  | identifier {c : Char} {cs : List Char} (hc : isNameStart c = true)
      (hcs : ∀ d ∈ cs, isNameChar d = true) : Fits .identifier (c :: cs)

namespace Lexeme

/-! ## Lexemes fit their kinds -/

theorem fits_number {c : Char} (hc : c.isDigit = true) (cs : List Char) :
    (number c cs).kind.Fits (number c cs).chars := by
  unfold number
  split
  · exact .number hc (by simp)
  · rename_i x ds
    dsimp only
    split
    · rename_i h
      obtain ⟨rfl, hx, hne⟩ := h
      exact .hexNumber hx hne fun d hd => List.mem_takeWhile_imp hd
    · exact .number hc fun d hd => List.mem_takeWhile_imp hd

theorem fits_quoted? {cs : List Char} {x : Lexeme} (h : quoted? '"' cs = some x) :
    x.kind.Fits x.chars := by
  unfold quoted? at h
  split at h
  · cases h
  · split at h
    · rename_i hd
      cases h
      rw [hd]
      exact .string fun e he => List.mem_takeWhile_imp he
    · cases h

theorem fits_afterReturn? {cs : List Char} {x : Lexeme} (h : afterReturn? '\r' cs = some x) :
    x.kind.Fits x.chars := by
  cases cs with
  | nil => simp [afterReturn?] at h
  | cons d ds =>
    simp only [afterReturn?] at h
    split at h
    · rename_i hd
      cases h
      rw [hd]
      exact .returnLineFeed
    · cases h

theorem fits_of_first? {cs : List Char} {x : Lexeme} (h : first? cs = some x) :
    x.kind.Fits x.chars := by
  cases cs with
  | nil => simp [first?] at h
  | cons c cs =>
    simp only [first?] at h
    split_ifs at h with hfeed hreturn hblank hsemicolon hquote hdigit hname hsymbol
    · cases h
      rw [hfeed]
      exact .lineFeed
    · rw [hreturn] at h
      exact fits_afterReturn? h
    · cases h
      exact .whitespace hblank fun d hd => List.mem_takeWhile_imp hd
    · cases h
      rw [hsemicolon]
      exact .comment fun d hd => List.mem_takeWhile_imp hd
    · rw [hquote] at h
      exact fits_quoted? h
    · cases h
      exact fits_number hdigit cs
    · cases h
      exact .identifier hname fun d hd => List.mem_takeWhile_imp hd
    · cases h
      exact .symbol hsymbol

/-! ## The first lexeme by its first character -/

theorem first?_of_isNameStart {c : Char} (h : isNameStart c = true) (cs : List Char) :
    first? (c :: cs) = some (run .identifier isNameChar c cs) := by
  have hb := isBlank_of_isNameChar (isNameChar_of_isNameStart h)
  have hd : c.isDigit = false := by
    rw [Bool.eq_false_iff, ne_eq, isDigit_iff]
    rw [isNameStart_iff] at h
    omega
  -- No other kind of lexeme starts with such a character.
  have hne : ∀ d : Char, isNameStart d = false → c ≠ d := by
    rintro d hd rfl
    rw [h] at hd
    cases hd
  simp [first?, hne '\n' rfl, hne '\r' rfl, hne ';' rfl, hne '"' rfl, hb, hd, h]

theorem first?_of_isBlank {c : Char} (h : isBlank c = true) (cs : List Char) :
    first? (c :: cs) = some (run .whitespace isBlank c cs) := by
  have hn : c ≠ '\n' := by
    rintro rfl
    cases h
  have hr : c ≠ '\r' := by
    rintro rfl
    cases h
  simp [first?, hn, hr, h]

theorem first?_of_isDigit {c : Char} (h : c.isDigit = true) (cs : List Char) :
    first? (c :: cs) = some (number c cs) := by
  have hb : isBlank c = false := by
    rw [Bool.eq_false_iff, ne_eq, isBlank_iff]
    rw [isDigit_iff] at h
    omega
  have hne : ∀ d : Char, d.isDigit = false → c ≠ d := by
    rintro d hd rfl
    rw [h] at hd
    cases hd
  simp [first?, hne '\n' rfl, hne '\r' rfl, hne ';' rfl, hne '"' rfl, hb, h]

theorem first?_of_isSymbol {c : Char} (h : isSymbol c = true) (cs : List Char) :
    first? (c :: cs) = some ⟨.symbol, [c], cs⟩ := by
  -- A symbol starts none of the lexemes that are looked for before it.
  have hall : symbolChars.all (fun d => d ≠ '\n' && d ≠ '\r' && !isBlank d && d ≠ ';' && d ≠ '"' &&
      !d.isDigit && !isNameStart d) = true := by decide
  have hc := List.all_eq_true.1 hall c (List.contains_iff_mem.1 h)
  simp only [Bool.and_eq_true, Bool.not_eq_true', decide_eq_true_eq] at hc
  obtain ⟨⟨⟨⟨⟨⟨hn, hr⟩, hb⟩, hs⟩, hq⟩, hd⟩, hname⟩ := hc
  simp [first?, hn, hr, hb, hs, hq, hd, hname, h]

/-! ## The first lexeme is the longest -/

/-- Characters of a class are all that `takeWhile` takes, or it takes more. -/
theorem takeWhile_of_all {p : Char → Bool} {cs : List Char} (hcs : ∀ d ∈ cs, p d = true)
    (rest : List Char) :
    ((cs ++ rest).takeWhile p = cs ∧ (cs ++ rest).dropWhile p = rest) ∨
      cs.length < ((cs ++ rest).takeWhile p).length := by
  rw [List.takeWhile_append_of_pos hcs, List.dropWhile_append_of_pos hcs]
  cases rest with
  | nil => simp
  | cons d rest =>
    by_cases hd : p d = true
    · simp [hd]
    · simp [hd]

theorem run_of_all {p : Char → Bool} {cs : List Char} (hcs : ∀ d ∈ cs, p d = true)
    (kind : FragmentKind) (c : Char) (rest : List Char) :
    run kind p c (cs ++ rest) = ⟨kind, c :: cs, rest⟩ ∨
      (c :: cs).length < (run kind p c (cs ++ rest)).chars.length := by
  unfold run
  rcases takeWhile_of_all hcs rest with ⟨ht, hd⟩ | hlt
  · rw [ht, hd]
    exact .inl rfl
  · exact .inr (Nat.succ_lt_succ hlt)

theorem number_of_hex {x : Char} {ds : List Char} (hx : x = 'x' ∨ x = 'X')
    (hne : ds.takeWhile isHexDigit ≠ []) : number '0' (x :: ds) =
      ⟨.hexNumber, '0' :: x :: ds.takeWhile isHexDigit, ds.dropWhile isHexDigit⟩ := by
  unfold number
  exact if_pos ⟨rfl, hx, hne⟩

/-- A number goes on for as long as digits do, or it is a longer hexadecimal one. -/
theorem number_eq (c : Char) (cs : List Char) :
    number c cs = run .number Char.isDigit c cs ∨
      ∃ x ds, cs = x :: ds ∧ x.isDigit = false ∧ 2 < (number c cs).chars.length := by
  unfold number
  split
  · exact .inl rfl
  · rename_i x ds
    dsimp only
    split
    · rename_i h
      obtain ⟨-, hx, hne⟩ := h
      have hlen := List.length_pos_iff.2 hne
      refine .inr ⟨x, ds, rfl, ?_, by simpa using hlen⟩
      rcases hx with rfl | rfl <;> rfl
    · exact .inl rfl

theorem quoted?_of_all {cs : List Char} (hcs : ∀ d ∈ cs, isInString d = true) (rest : List Char) :
    quoted? '"' (cs ++ '"' :: rest) = some ⟨.string, '"' :: cs ++ ['"'], rest⟩ := by
  unfold quoted?
  rw [List.takeWhile_append_of_pos hcs, List.dropWhile_append_of_pos hcs]
  simp [isInString]

/-- A piece at the start of a text that fits a pattern is the first lexeme, or a longer
piece is. -/
theorem first?_of_fits {kind : FragmentKind} {chars : List Char} (h : kind.Fits chars)
    (rest : List Char) : ∃ x, first? (chars ++ rest) = some x ∧
      (x = ⟨kind, chars, rest⟩ ∨ chars.length < x.chars.length) := by
  cases h with
  | lineFeed => exact ⟨_, rfl, .inl rfl⟩
  | returnLineFeed => exact ⟨_, rfl, .inl rfl⟩
  | whitespace hc hcs => exact ⟨_, first?_of_isBlank hc _, run_of_all hcs ..⟩
  | comment hcs => exact ⟨_, rfl, run_of_all hcs ..⟩
  | @string cs hcs =>
    have hfirst : first? ('"' :: cs ++ ['"'] ++ rest) = quoted? '"' (cs ++ '"' :: rest) := by
      simp [first?, isBlank]
    exact ⟨_, hfirst.trans (quoted?_of_all hcs rest), .inl rfl⟩
  | symbol hc => exact ⟨_, first?_of_isSymbol hc _, .inl rfl⟩
  | @hexNumber x cs hx hne hcs =>
    refine ⟨number '0' (x :: (cs ++ rest)), first?_of_isDigit rfl _, ?_⟩
    have htake : (cs ++ rest).takeWhile isHexDigit ≠ [] := by
      rw [List.takeWhile_append_of_pos hcs]
      simp [hne]
    rw [number_of_hex hx htake]
    rcases takeWhile_of_all hcs rest with ⟨ht, hd⟩ | hlt
    · rw [ht, hd]
      exact .inl rfl
    · exact .inr (Nat.succ_lt_succ (Nat.succ_lt_succ hlt))
  | @number c cs hc hcs =>
    refine ⟨number c (cs ++ rest), first?_of_isDigit hc _, ?_⟩
    rcases number_eq c (cs ++ rest) with hrun | ⟨x, ds, hcons, hx, hlen⟩
    · rw [hrun]
      exact run_of_all hcs ..
    · -- Only a single zero can stand before the letter of a hexadecimal number.
      cases cs with
      | nil =>
        right
        rw [List.length_singleton]
        omega
      | cons d cs =>
        cases hcons
        rw [hcs x List.mem_cons_self] at hx
        cases hx
  | identifier hc hcs => exact ⟨_, first?_of_isNameStart hc _, run_of_all hcs ..⟩

/-- The first lexeme is the longest piece at the start of the text that fits a pattern. -/
theorem first?_eq_some_iff {cs : List Char} {x : Lexeme} : first? cs = some x ↔
    x.chars ++ x.rest = cs ∧ x.kind.Fits x.chars ∧
      ∀ (kind : FragmentKind) chars rest, chars ++ rest = cs → kind.Fits chars →
        chars.length ≤ x.chars.length := by
  constructor
  · intro h
    refine ⟨(first?_chars_append h).1, fits_of_first? h, ?_⟩
    rintro kind chars rest rfl hfits
    obtain ⟨y, hy, hlen⟩ := first?_of_fits hfits rest
    rw [h] at hy
    cases hy
    rcases hlen with he | hlt
    · rw [he]
    · omega
  · rintro ⟨rfl, hfits, hlongest⟩
    obtain ⟨y, hy, rfl | hlt⟩ := first?_of_fits hfits x.rest
    · exact hy
    · have hle := hlongest y.kind y.chars y.rest (first?_chars_append hy).1 (fits_of_first? hy)
      omega

/-- There is no first lexeme just if no piece at the start of the text fits a pattern. -/
theorem first?_eq_none_iff {cs : List Char} : first? cs = none ↔
    ∀ (kind : FragmentKind) chars rest, chars ++ rest = cs → ¬ kind.Fits chars := by
  constructor
  · rintro h kind chars rest rfl hfits
    obtain ⟨y, hy, -⟩ := first?_of_fits hfits rest
    rw [h] at hy
    cases hy
  · intro h
    cases hx : first? cs with
    | none => rfl
    | some x => exact absurd (fits_of_first? hx) (h _ _ x.rest (first?_chars_append hx).1)

end Lexeme

end WordMachine
