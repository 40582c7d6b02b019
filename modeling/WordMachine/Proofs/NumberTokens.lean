-- Number tokens. All that a text is cut into has a meaning, but for numbers that do not fit in
-- 32 bits. A number means what its digits denote, and a string what stands between its quotes.
import Mathlib.Data.Nat.Digits.Defs
import WordMachine.Proofs.SourceLines
import WordMachine.Proofs.Spelling

namespace WordMachine

/-! ## Digits -/

namespace Text

/-- The value of a digit of either case. -/
def digit (c : Char) : Nat := "0123456789ABCDEF".toList.idxOf c.toUpper

/-- The number that a row of digits denotes, the last of which counts once. -/
def denoted (base : Nat) (cs : List Char) : Nat := Nat.ofDigits base (cs.reverse.map digit)

theorem denoted_append_singleton (base : Nat) (cs : List Char) (c : Char) :
    denoted base (cs ++ [c]) = denoted base cs * base + digit c := by
  unfold denoted
  rw [List.reverse_concat, List.map_cons, Nat.ofDigits_cons, Nat.mul_comm, Nat.add_comm]

theorem digitValue?_of_isHexDigit {c : Char} (h : isHexDigit c = true) :
    digitValue? 16 c = some (digit c) := by
  have hc : c.toNat < 128 := by
    rw [isHexDigit_iff] at h
    omega
  revert h
  apply of_toNat_lt (b := 128) ?_ hc
  decide +kernel

theorem digitValue?_of_isDigit {c : Char} (h : c.isDigit = true) :
    digitValue? 10 c = some (digit c) := by
  have hc : c.toNat < 128 := by
    rw [isDigit_iff] at h
    omega
  revert h
  apply of_toNat_lt (b := 128) ?_ hc
  decide +kernel

/-- A row of digits of the base is read as the number that it denotes. -/
theorem readDigits?_of_digits {base : Nat} {cs : List Char} (hne : cs ≠ [])
    (h : ∀ c ∈ cs, digitValue? base c = some (digit c)) :
    readDigits? base cs = some (denoted base cs) := by
  have hfold : cs.foldlM (fun n c => (digitValue? base c).map (n * base + ·)) 0 =
      some (denoted base cs) := by
    clear hne
    induction cs using List.reverseRecOn with
    | nil => rfl
    | append_singleton ds c ih =>
      have hds : ∀ d ∈ ds, digitValue? base d = some (digit d) :=
        fun d hd => h d (List.mem_append_left [c] hd)
      rw [List.foldlM_append, ih hds, denoted_append_singleton]
      simp [h c (by simp)]
  cases cs with
  | nil => exact absurd rfl hne
  | cons c cs => exact hfold

theorem isHexDigit_of_isDigit {c : Char} (h : c.isDigit = true) : isHexDigit c = true := by
  rw [isHexDigit_iff]
  rw [isDigit_iff] at h
  exact .inl h

end Text

/-! ## Fragments of a text -/

namespace Fragment

/-- The number that a fragment denotes. Two characters stand before the digits of a
hexadecimal one. -/
def denoted? (f : Fragment) : Option Nat :=
  match f.kind with
  | .hexNumber => some (Text.denoted 16 (f.text.toList.drop 2))
  | .number => some (Text.denoted 10 f.text.toList)
  | _ => none

/-- The fragment denotes a number that does not fit in 32 bits. -/
def IsOversized (f : Fragment) : Prop := ∃ n, f.denoted? = some n ∧ 2 ^ 32 ≤ n

instance (f : Fragment) : Decidable f.IsOversized :=
  decidable_of_iff (f.denoted?.any (2 ^ 32 ≤ ·) = true) <| by
    unfold IsOversized
    cases f.denoted? <;> simp

/-- The number of a fragment is read as it is denoted. -/
theorem numeral?_of_fits {f : Fragment} (h : f.kind.Fits f.text.toList) :
    f.numeral? = f.denoted? := by
  obtain ⟨kind, s, place⟩ := f
  unfold numeral? denoted?
  simp only at h ⊢
  generalize hs : s.toList = chars at h ⊢
  cases h with
  | @hexNumber x cs hx hne hcs =>
    simp only
    rw [hexDigits_of_toList hx hs, Text.readNumeral?_of_isHexDigit hcs,
      Text.readDigits?_of_digits hne fun d hd => Text.digitValue?_of_isHexDigit (hcs d hd)]
    rfl
  | @number c cs hc hcs =>
    have hall : ∀ d ∈ c :: cs, d.isDigit = true := List.forall_mem_cons.2 ⟨hc, hcs⟩
    simp only
    rw [Text.readNumeral?_of_isHexDigit fun d hd => Text.isHexDigit_of_isDigit (hall d hd),
      Text.readDigits?_of_digits (List.cons_ne_nil c cs) fun d hd =>
        Text.digitValue?_of_isDigit (hall d hd)]
  | _ => rfl

theorem isSome_markOf? {s : String} {c : Char} (hs : s.toList = [c]) (hc : isSymbol c = true) :
    (markOf? s).isSome := by
  have hall : symbolChars.all (fun d => (Punctuation.ofChar? d).isSome) = true := by decide
  unfold markOf?
  rw [hs]
  exact List.all_eq_true.1 hall c (List.contains_iff_mem.1 hc)

theorem smallNumber?_of_readNumeral? {base n : Nat} {digits : List Char}
    (h : Text.readNumeral? base digits = some n) :
    smallNumber? base digits = if n < 2 ^ 32 then some n else none := by
  unfold smallNumber?
  rw [h, Option.filter_some]
  simp [UInt32.size]

/-- Numbers of both kinds are taken up to the same size. -/
theorem meaning_of_numeral {f : Fragment} {n : Nat} (h : f.numeral? = some n) : f.meaning =
    if n < 2 ^ 32 then .ok (some (.number n)) else .error (.numberTooLarge f.text f.location) := by
  unfold numeral? at h
  unfold meaning
  split at h
  case h_3 => cases h
  -- Both kinds are read in the same way, each in its base.
  all_goals
    rename_i hk
    rw [hk]
    simp only [smallNumber?_of_readNumeral? h]
    by_cases hlt : n < 2 ^ 32
    · simp only [if_pos hlt]
    · simp only [if_neg hlt]

theorem meaning_of_denoted {f : Fragment} {n : Nat} (h : f.kind.Fits f.text.toList)
    (hn : f.denoted? = some n) : f.meaning =
      if n < 2 ^ 32 then .ok (some (.number n)) else .error (.numberTooLarge f.text f.location) :=
  meaning_of_numeral ((numeral?_of_fits h).trans hn)

/-- What denotes no number has another meaning, or needs none. -/
theorem exists_meaning {f : Fragment} (h : f.kind.Fits f.text.toList) (hn : f.denoted? = none) :
    ∃ v, f.meaning = .ok v ∧ ∀ n, v ≠ some (.number n) := by
  obtain ⟨kind, s, place⟩ := f
  unfold denoted? at hn
  unfold meaning
  simp only at h hn ⊢
  generalize hs : s.toList = chars at h
  cases h with
  | symbol hc =>
    obtain ⟨p, hp⟩ := Option.isSome_iff_exists.1 (isSome_markOf? hs hc)
    exact ⟨some (.punctuation p), by simp only [hp], by simp⟩
  | identifier _ _ =>
    refine ⟨_, rfl, fun n => ?_⟩
    rcases TokenValue.ofName_cases s with ⟨r, h⟩ | ⟨op, h⟩ | ⟨d, h⟩ | h <;> simp [h]
  | hexNumber _ _ _ => cases hn
  | number _ _ => cases hn
  | _ => exact ⟨_, rfl, by simp⟩

/-- A fragment of a text is refused just if it is a number that is too large. -/
theorem token?_eq_error_iff {f : Fragment} {e : TokenError} (h : f.kind.Fits f.text.toList) :
    f.token? = .error e ↔ f.IsOversized ∧ e = .numberTooLarge f.text f.location := by
  unfold token? IsOversized
  rw [map_eq_error_iff]
  cases hn : f.denoted? with
  | none =>
    obtain ⟨v, hv, -⟩ := exists_meaning h hn
    simp [hv]
  | some n =>
    rw [meaning_of_denoted h hn]
    by_cases hlt : n < 2 ^ 32
    · rw [if_pos hlt]
      simpa using fun hle => absurd hlt (Nat.not_lt.2 hle)
    · rw [if_neg hlt]
      simpa [eq_comm] using fun _ => Nat.not_lt.1 hlt

theorem exists_token?_iff {f : Fragment} (h : f.kind.Fits f.text.toList) :
    (∃ t, f.token? = .ok t) ↔ ¬ f.IsOversized := by
  cases ht : f.token? with
  | error e => simp [((token?_eq_error_iff h).1 ht).1]
  | ok t =>
    have hnot : ¬ f.IsOversized := by
      intro hlarge
      rw [(token?_eq_error_iff h).2 ⟨hlarge, rfl⟩] at ht
      cases ht
    simp [hnot]

/-- A token is a number just if its fragment denotes one, and this is its value. -/
theorem value_eq_number_iff {f : Fragment} {v : TokenValue} (h : f.kind.Fits f.text.toList)
    (hv : f.value? = some v) (n : Nat) : v = .number n ↔ f.denoted? = some n := by
  unfold value? at hv
  cases hn : f.denoted? with
  | none =>
    obtain ⟨w, hw, hother⟩ := exists_meaning h hn
    rw [hw] at hv
    cases hv
    simpa using hother n
  | some m =>
    rw [meaning_of_denoted h hn] at hv
    by_cases hlt : m < 2 ^ 32
    · rw [if_pos hlt] at hv
      cases hv
      simp
    · rw [if_neg hlt] at hv
      cases hv

theorem ofList_quoted (cs : List Char) :
    String.ofList ('"' :: cs ++ ['"']) = "\"" ++ .ofList cs ++ "\"" := by
  rw [← String.toList_inj]
  simp

/-- A token is a string just if its fragment is that string between quotes. -/
theorem value_eq_string_iff {f : Fragment} {v : TokenValue} (h : f.kind.Fits f.text.toList)
    (hv : f.value? = some v) (s : String) :
    v = .string s ↔ f.kind = .string ∧ f.text = "\"" ++ s ++ "\"" := by
  obtain ⟨kind, text, place⟩ := f
  simp only at h ⊢
  constructor
  · rintro rfl
    have hname : TokenValue.ofName text ≠ .string s := by
      rcases TokenValue.ofName_cases text with ⟨r, h⟩ | ⟨op, h⟩ | ⟨d, h⟩ | h <;> simp [h]
    rw [value?_eq] at hv
    generalize hchars : text.toList = chars at h
    cases h with
    | @string cs hcs =>
      have htext : text = .ofList ('"' :: cs ++ ['"']) := by rw [← hchars, String.ofList_toList]
      rw [htext]
      simp only [htext, stringBody_quoted, Option.some_inj, TokenValue.string.injEq] at hv
      exact ⟨rfl, by rw [ofList_quoted, hv]⟩
    | identifier _ _ => exact absurd (Option.some.inj hv) hname
    | _ => simp at hv
  · rintro ⟨rfl, rfl⟩
    have hbody := stringBody_quoted s.toList
    rw [ofList_quoted, String.ofList_toList] at hbody
    rw [value?_eq, Option.some_inj, hbody] at hv
    exact hv.symm

end Fragment

/-! ## All fragments of a text -/

namespace Fragment

/-- The fragment is the first one that is too large. -/
def FirstOversized (fs : List Fragment) (f : Fragment) : Prop :=
  ∃ before after, fs = before ++ f :: after ∧ f.IsOversized ∧ ∀ g ∈ before, ¬ g.IsOversized

theorem ofFragments_eq_error_iff {source : String} {fs : List Fragment} {e : TokenError}
    (hs : split source = .ok fs) : Token.ofFragments fs = .error e ↔
      ∃ f, FirstOversized fs f ∧ e = .numberTooLarge f.text f.location := by
  have hfits := fits_of_split hs
  unfold Token.ofFragments FirstOversized
  rw [if_neg (by simpa using ne_nil_of_split hs), map_eq_error_iff, mapM_eq_error_iff]
  constructor
  · rintro ⟨before, f, after, found, rfl, hfound, hf⟩
    obtain ⟨hlarge, rfl⟩ := (token?_eq_error_iff (hfits f (by simp))).1 hf
    refine ⟨f, ⟨before, after, rfl, hlarge, fun g hg => ?_⟩, rfl⟩
    exact (exists_token?_iff (hfits g (by simp [hg]))).1 (exists_mapM_iff.1 ⟨found, hfound⟩ g hg)
  · rintro ⟨f, ⟨before, after, rfl, hlarge, hbefore⟩, rfl⟩
    have hall : ∀ g ∈ before, ∃ t, g.token? = .ok t :=
      fun g hg => (exists_token?_iff (hfits g (by simp [hg]))).2 (hbefore g hg)
    obtain ⟨found, hfound⟩ := exists_mapM_iff.2 hall
    exact ⟨before, f, after, found, rfl, hfound,
      (token?_eq_error_iff (hfits f (by simp))).2 ⟨hlarge, rfl⟩⟩

/-- There is an error just if a number is too large. -/
theorem exists_error_iff {source : String} {fs : List Fragment} (hs : split source = .ok fs) :
    (∃ e, Token.ofFragments fs = .error e) ↔ ∃ f ∈ fs, f.IsOversized := by
  constructor
  · rintro ⟨e, he⟩
    obtain ⟨f, ⟨before, after, rfl, hlarge, -⟩, -⟩ := (ofFragments_eq_error_iff hs).1 he
    exact ⟨f, by simp, hlarge⟩
  · rintro ⟨f, hf, hlarge⟩
    cases he : Token.ofFragments fs with
    | error e => exact ⟨e, rfl⟩
    | ok ts =>
      unfold Token.ofFragments at he
      rw [if_neg (by simpa using ne_nil_of_split hs)] at he
      have hall := exists_mapM_iff.1 (exists_map_iff.1 ⟨ts, he⟩)
      exact absurd hlarge ((exists_token?_iff (fits_of_split hs f hf)).1 (hall f hf))

end Fragment

/-- What a text is cut into has a meaning unless a number does not fit in 32 bits, and then the
first such number is reported with its text and its place. Else each number means what its
digits denote, and each string what stands between its quotes. -/
theorem only_oversized_numbers_have_no_meaning {source : String} {fs : List Fragment}
    (h : Fragment.split source = .ok fs) :
    (∀ e, Token.ofFragments fs = .error e ↔
      ∃ f, Fragment.FirstOversized fs f ∧ e = .numberTooLarge f.text f.location) ∧
    ((∃ e, Token.ofFragments fs = .error e) ↔ ∃ f ∈ fs, f.IsOversized) ∧
    ∀ ts, Token.ofFragments fs = .ok ts → ∀ t ∈ ts, t.source ∈ fs ∧
      (∀ n, t.value = .number n ↔ t.source.denoted? = some n) ∧
      ∀ s, t.value = .string s ↔ t.source.kind = .string ∧ t.source.text = "\"" ++ s ++ "\"" := by
  refine ⟨fun e => Fragment.ofFragments_eq_error_iff h, Fragment.exists_error_iff h, ?_⟩
  intro ts hts t ht
  obtain ⟨hmem, hvalue⟩ := Token.source_of_ofFragments hts ht
  have hfits := Fragment.fits_of_split h t.source hmem
  exact ⟨hmem, Fragment.value_eq_number_iff hfits hvalue, Fragment.value_eq_string_iff hfits hvalue⟩

/-- A number with a leading zero that just fits, one that just does not fit and a larger one. -/
theorem the_first_of_two_oversized_numbers_is_reported :
    ∃ fs, Fragment.split "0x0FFFFFFFF 4294967296 5000000000" = .ok fs ∧
      Token.ofFragments fs = .error (.numberTooLarge "4294967296" ⟨12, 0, 12⟩) := by
  have hs : (Fragment.split "0x0FFFFFFFF 4294967296 5000000000").toOption =
      some [⟨.hexNumber, "0x0FFFFFFFF", ⟨0, 0, 0⟩⟩, ⟨.whitespace, " ", ⟨11, 0, 11⟩⟩,
        ⟨.number, "4294967296", ⟨12, 0, 12⟩⟩, ⟨.whitespace, " ", ⟨22, 0, 22⟩⟩,
        ⟨.number, "5000000000", ⟨23, 0, 23⟩⟩] := by decide +kernel
  rw [toOption_eq_some_iff] at hs
  refine ⟨_, hs, ((only_oversized_numbers_have_no_meaning hs).1 _).2
    ⟨⟨.number, "4294967296", ⟨12, 0, 12⟩⟩, ?_, rfl⟩⟩
  exact ⟨[⟨.hexNumber, "0x0FFFFFFFF", ⟨0, 0, 0⟩⟩, ⟨.whitespace, " ", ⟨11, 0, 11⟩⟩], _, rfl,
    by decide +kernel, by decide +kernel⟩

end WordMachine
