-- Escapes. A literal is read just if it is made of plain characters and of escapes, and then
-- it stands for their bytes. An escape with a number takes as many characters as the number
-- has digits. They are meant to be hexadecimal digits, but the first may be a plus sign.
import Mathlib.Tactic.SplitIfs
import WordMachine.Proofs.Numerals
import WordMachine.Source.Literal

namespace WordMachine

namespace Literal

/-! ## What a literal spells -/

/-- A backslash and the character stand for the byte. -/
inductive Short : Char → UInt8 → Prop
  | backslash : Short '\\' 0x5C
  | doubleQuote : Short '"' 0x22
  | quote : Short '\'' 0x27
  | null : Short '0' 0x00
  | bell : Short 'a' 0x07
  | backspace : Short 'b' 0x08
  | formFeed : Short 'f' 0x0C
  | lineFeed : Short 'n' 0x0A
  | carriageReturn : Short 'r' 0x0D
  | tab : Short 't' 0x09
  | verticalTab : Short 'v' 0x0B

section

variable (Number : Nat → Nat → List Char → Prop)

/-- An escape as it is written behind its backslash, and the bytes that it stands for.
`Number width n cs` says that the characters are a number in an escape. -/
inductive Escape : List Char → Bytes → Prop
  | short {c : Char} {b : UInt8} (h : Short c b) : Escape [c] [b]
  | byte {cs : List Char} {b : UInt8} (h : Number 2 b.toNat cs) : Escape ('x' :: cs) [b]
  | codePoint {cs : List Char} {c : Char} (h : Number 4 c.toNat cs) :
      Escape ('u' :: cs) (String.utf8EncodeChar c)

/-- The characters are a literal that stands for the bytes: plain characters, which stand
for their encodings, and escapes. -/
inductive Spells : List Char → Bytes → Prop
  | nil : Spells [] []
  | plain {c : Char} {cs : List Char} {bytes : Bytes} (hc : c ≠ '\\') (h : Spells cs bytes) :
      Spells (c :: cs) (String.utf8EncodeChar c ++ bytes)
  | escape {es cs : List Char} {front bytes : Bytes} (he : Escape Number es front)
      (h : Spells cs bytes) : Spells ('\\' :: (es ++ cs)) (front ++ bytes)

end

/-- A number as it is read in an escape: its digits, or a plus sign in place of the first
one. -/
inductive Numeral : Nat → Nat → List Char → Prop
  | digits {width n : Nat} {cs : List Char} (h : Text.IsHexField width n cs) : Numeral width n cs
  | signed {width n : Nat} {cs : List Char} (h : Text.IsHexField (width + 1) n cs) :
      Numeral (width + 2) n ('+' :: cs)

theorem Numeral.length_eq {width n : Nat} {cs : List Char} (h : Numeral width n cs) :
    cs.length = width := by
  cases h with
  | digits h => exact h.length_eq
  | signed h => rw [List.length_cons, h.length_eq]

theorem Numeral.small {width n : Nat} {cs : List Char} (h : Numeral width n cs) :
    n < 16 ^ width := by
  cases h with
  | digits h => exact h.small
  | signed h => exact Nat.lt_of_lt_of_le h.small (Nat.pow_le_pow_right (by decide) (Nat.le_succ _))

/-! ## One escape -/

theorem shortEscape?_eq_some_iff {c : Char} {b : UInt8} :
    shortEscape? c = some b ↔ Short c b := by
  constructor
  · intro h
    unfold shortEscape? at h
    obtain ⟨front, back, htable, -⟩ := List.lookup_eq_some_iff.1 h
    have hm := htable ▸ List.mem_append_right front (List.mem_cons_self (a := (c, b)) (l := back))
    simp only [List.mem_cons, List.not_mem_nil, or_false, Prod.mk.injEq] at hm
    rcases hm with ⟨rfl, rfl⟩ | ⟨rfl, rfl⟩ | ⟨rfl, rfl⟩ | ⟨rfl, rfl⟩ | ⟨rfl, rfl⟩ | ⟨rfl, rfl⟩ |
      ⟨rfl, rfl⟩ | ⟨rfl, rfl⟩ | ⟨rfl, rfl⟩ | ⟨rfl, rfl⟩ | ⟨rfl, rfl⟩
    all_goals constructor
  · intro h
    cases h <;> rfl

theorem hexValue?_eq_some_iff {width n : Nat} {cs : List Char} :
    hexValue? (width + 2) cs = some n ↔ Numeral (width + 2) n cs := by
  unfold hexValue?
  by_cases hlen : cs.length = width + 2
  · rw [if_pos hlen]
    unfold Text.readNumeral?
    split
    · rename_i ds
      have hds : ds.length = width + 1 := Nat.succ.inj hlen
      have hne : ds ≠ [] := List.ne_nil_of_length_eq_add_one hds
      rw [Text.readDigits?_eq_some_iff hne, hds]
      constructor
      · exact .signed
      · intro h
        cases h with
        | digits h => exact absurd h Text.IsHexField.not_sign
        | signed h => exact h
    · rename_i hsign
      rw [Text.readDigits?_eq_some_iff (List.ne_nil_of_length_eq_add_one hlen), hlen]
      constructor
      · exact .digits
      · intro h
        cases h with
        | digits h => exact h
        | @signed _ _ ds h => exact absurd rfl (hsign ds)
  · rw [if_neg hlen]
    constructor
    · intro h
      cases h
    · intro h
      exact absurd h.length_eq hlen

theorem charOf?_eq_some_iff {n : Nat} {c : Char} : charOf? n = some c ↔ n = c.toNat := by
  unfold charOf?
  constructor
  · intro h
    split at h
    · rename_i hn
      cases h
      unfold Char.ofNat
      rw [dif_pos hn]
      rfl
    · cases h
  · rintro rfl
    have hc : c.toNat.isValidChar := c.valid
    rw [if_pos hc, Char.ofNat_toNat]

theorem readEscape_eq_ok_iff {cs rest : List Char} {bytes : Bytes} :
    readEscape cs = .ok (bytes, rest) ↔ ∃ es, cs = es ++ rest ∧ Escape Numeral es bytes := by
  constructor
  · intro h
    cases cs with
    | nil => cases h
    | cons c cs =>
      simp only [readEscape] at h
      split at h
      · rename_i b hb
        cases h
        exact ⟨[c], rfl, .short (shortEscape?_eq_some_iff.1 hb)⟩
      split_ifs at h with hx hu
      · split at h
        · rename_i n hn
          cases h
          have hnumber := hexValue?_eq_some_iff.1 hn
          refine ⟨'x' :: cs.take 2, ?_, .byte ?_⟩
          · rw [hx, List.cons_append, List.take_append_drop]
          · rwa [UInt8.toNat_ofNat_of_lt' hnumber.small]
        · cases h
      · split at h
        · rename_i d hd
          cases h
          obtain ⟨n, hn, hd⟩ := Option.bind_eq_some_iff.1 hd
          rw [charOf?_eq_some_iff.1 hd] at hn
          refine ⟨'u' :: cs.take 4, ?_, .codePoint (hexValue?_eq_some_iff.1 hn)⟩
          rw [hu, List.cons_append, List.take_append_drop]
        · cases h
  · rintro ⟨es, rfl, he⟩
    cases he with
    | @short c b hb =>
      have hshort := shortEscape?_eq_some_iff.2 hb
      simp only [List.singleton_append, readEscape, hshort]
    | @byte ds b hn =>
      have hx : shortEscape? 'x' = none := by decide
      have hvalue := hexValue?_eq_some_iff.2 hn
      simp only [List.cons_append, readEscape, hx, if_true]
      rw [List.take_left' hn.length_eq, List.drop_left' hn.length_eq, hvalue]
      simp only [UInt8.ofNat_toNat]
    | @codePoint ds c hn =>
      have hu : shortEscape? 'u' = none := by decide
      have hux : 'u' ≠ 'x' := by decide
      have hvalue := hexValue?_eq_some_iff.2 hn
      simp only [List.cons_append, readEscape, hu, if_neg hux, if_true]
      rw [List.take_left' hn.length_eq, List.drop_left' hn.length_eq, hvalue, Option.bind_some,
        charOf?_eq_some_iff.2 rfl]

/-- What is taken for an escape: a character, and as many more as the number has that it
calls for. -/
def attempt : List Char → List Char
  | [] => []
  | c :: cs => c :: cs.take (if c = 'x' then 2 else if c = 'u' then 4 else 0)

theorem text_of_readEscape {cs : List Char} {e : InvalidEscape} (h : readEscape cs = .error e) :
    e.text = String.ofList (attempt cs) := by
  cases cs with
  | nil =>
    cases h
    rfl
  | cons c cs =>
    rw [attempt]
    simp only [readEscape] at h
    split at h
    · cases h
    split_ifs at h with hx hu
    · split at h
      · cases h
      · cases h
        rw [if_pos hx]
    · split at h
      · cases h
      · cases h
        rw [if_neg hx, if_pos hu]
    · cases h
      rw [if_neg hx, if_neg hu]
      exact String.singleton_eq_ofList

/-- Reading fails just where there is no escape, and the error tells what stands there. -/
theorem readEscape_eq_error_iff {cs : List Char} {e : InvalidEscape} :
    readEscape cs = .error e ↔ (∀ es after bytes, cs = es ++ after → ¬ Escape Numeral es bytes) ∧
      e.text = String.ofList (attempt cs) := by
  constructor
  · intro h
    refine ⟨?_, text_of_readEscape h⟩
    intro es after bytes hcs he
    rw [readEscape_eq_ok_iff.2 ⟨es, hcs, he⟩] at h
    cases h
  · rintro ⟨hnone, htext⟩
    cases h : readEscape cs with
    | ok r =>
      obtain ⟨es, hcs, he⟩ := readEscape_eq_ok_iff.1 h
      exact absurd he (hnone es r.2 r.1 hcs)
    | error d =>
      have hd := text_of_readEscape h
      rw [← htext] at hd
      cases d
      cases e
      cases hd
      rfl

/-- No escape goes on as another one. -/
theorem Escape.unique {es es' rest rest' : List Char} {bytes bytes' : Bytes}
    (h : Escape Numeral es bytes) (h' : Escape Numeral es' bytes')
    (hsame : es ++ rest = es' ++ rest') : es = es' ∧ rest = rest' := by
  have hread := readEscape_eq_ok_iff.2 ⟨es, rfl (a := es ++ rest), h⟩
  rw [readEscape_eq_ok_iff.2 ⟨es', hsame, h'⟩] at hread
  cases hread
  exact ⟨List.append_cancel_right hsame, rfl⟩

/-! ## Whole literals -/

theorem readFrom_escape {done bytes : Bytes} {cs rest : List Char}
    (h : readEscape cs = .ok (bytes, rest)) :
    readFrom done ('\\' :: cs) = readFrom (bytes.reverse ++ done) rest := by
  rw [readFrom, if_pos rfl]
  split
  · rename_i h'
    rw [h] at h'
    cases h'
    rfl
  · rename_i h'
    rw [h] at h'
    cases h'

/-- A literal is read behind what it starts with. -/
theorem readFrom_append {front : List Char} {bytes : Bytes} (h : Spells Numeral front bytes)
    (done : Bytes) (rest : List Char) :
    readFrom done (front ++ rest) = readFrom (bytes.reverse ++ done) rest := by
  induction h generalizing done with
  | nil => rfl
  | plain hc _ ih =>
    rw [List.cons_append, readFrom, if_neg hc, ih, List.reverse_append, List.append_assoc]
  | @escape es cs _ _ he _ ih =>
    have hread := readEscape_eq_ok_iff.2 ⟨es, List.append_assoc es cs rest, he⟩
    rw [List.cons_append, readFrom_escape hread, ih, List.reverse_append, List.append_assoc]

theorem spells_of_readFrom {done bytes : Bytes} {cs : List Char}
    (h : readFrom done cs = .ok bytes) :
    ∃ more, Spells Numeral cs more ∧ bytes = done.reverse ++ more := by
  fun_induction readFrom done cs with
  | case1 done =>
    cases h
    exact ⟨[], .nil, (List.append_nil _).symm⟩
  | case2 done rest front after hread ih =>
    obtain ⟨es, rfl, he⟩ := readEscape_eq_ok_iff.1 hread
    obtain ⟨more, hmore, rfl⟩ := ih h
    exact ⟨front ++ more, .escape he hmore, by simp⟩
  | case3 done rest e hread => cases h
  | case4 done c rest hc ih =>
    obtain ⟨more, hmore, rfl⟩ := ih h
    exact ⟨_, .plain hc hmore, by simp⟩

theorem spells_of_readFrom_error {done : Bytes} {cs : List Char} {e : InvalidEscape}
    (h : readFrom done cs = .error e) : ∃ front bytes rest, cs = front ++ '\\' :: rest ∧
      Spells Numeral front bytes ∧ readEscape rest = .error e := by
  fun_induction readFrom done cs with
  | case1 done => cases h
  | case2 done rest _ after hread ih =>
    obtain ⟨es, rfl, he⟩ := readEscape_eq_ok_iff.1 hread
    obtain ⟨front, bytes, rest, rfl, hfront, herror⟩ := ih h
    exact ⟨_, _, rest, by simp, .escape he hfront, herror⟩
  | case3 done rest d hread =>
    cases h
    exact ⟨[], [], rest, rfl, .nil, hread⟩
  | case4 done c rest hc ih =>
    obtain ⟨front, bytes, rest, rfl, hfront, herror⟩ := ih h
    exact ⟨_, _, rest, rfl, .plain hc hfront, herror⟩

/-- A literal is read just if it spells some bytes. -/
theorem read_eq_ok_iff {literal : String} {bytes : Bytes} :
    read literal = .ok bytes ↔ Spells Numeral literal.toList bytes := by
  unfold read
  constructor
  · intro h
    obtain ⟨more, hmore, rfl⟩ := spells_of_readFrom h
    exact hmore
  · intro h
    have hread := readFrom_append h [] []
    rw [List.append_nil, List.append_nil] at hread
    rw [hread, readFrom, List.reverse_reverse]

/-- A literal is refused for the first backslash that has no escape behind it. -/
theorem read_eq_error_iff {literal : String} {e : InvalidEscape} :
    read literal = .error e ↔ ∃ front bytes rest, literal.toList = front ++ '\\' :: rest ∧
      Spells Numeral front bytes ∧ readEscape rest = .error e := by
  unfold read
  constructor
  · exact spells_of_readFrom_error
  · rintro ⟨front, bytes, rest, hliteral, hfront, herror⟩
    rw [hliteral, readFrom_append hfront, readFrom, if_pos rfl]
    split
    · rename_i h
      rw [herror] at h
      cases h
    · rename_i h
      rw [herror] at h
      cases h
      rfl

/-! ## Signs -/

/-- A number in an escape starts with a plus sign. -/
def HasSign (cs : List Char) : Prop :=
  ∃ front bytes c rest, cs = front ++ '\\' :: c :: '+' :: rest ∧ Spells Numeral front bytes ∧
    (c = 'x' ∨ c = 'u')

section

variable {Number Number' : Nat → Nat → List Char → Prop}

theorem Escape.mono (hn : ∀ width n cs, Number width n cs → Number' width n cs) {es : List Char}
    {bytes : Bytes} (h : Escape Number es bytes) : Escape Number' es bytes := by
  cases h with
  | short h => exact .short h
  | byte h => exact .byte (hn _ _ _ h)
  | codePoint h => exact .codePoint (hn _ _ _ h)

theorem Spells.mono (hn : ∀ width n cs, Number width n cs → Number' width n cs) {cs : List Char}
    {bytes : Bytes} (h : Spells Number cs bytes) : Spells Number' cs bytes := by
  induction h with
  | nil => exact .nil
  | plain hc _ ih => exact .plain hc ih
  | escape he _ ih => exact .escape (he.mono hn) ih

theorem Spells.of_escape {cs : List Char} {bytes : Bytes} (h : Spells Number ('\\' :: cs) bytes) :
    ∃ es rest front more, cs = es ++ rest ∧ Escape Number es front ∧ Spells Number rest more := by
  generalize hds : '\\' :: cs = ds at h
  cases h with
  | nil => cases hds
  | plain hc h =>
    cases hds
    exact absurd rfl hc
  | escape he h =>
    cases hds
    exact ⟨_, _, _, _, rfl, he, h⟩

theorem Spells.of_plain {c : Char} {cs : List Char} {bytes : Bytes} (hc : c ≠ '\\')
    (h : Spells Number (c :: cs) bytes) : ∃ more, Spells Number cs more := by
  generalize hds : c :: cs = ds at h
  cases h with
  | nil => cases hds
  | plain _ h =>
    cases hds
    exact ⟨_, h⟩
  | escape he h =>
    cases hds
    exact absurd rfl hc

/-- What is left of a literal behind something spelled is spelled in the same way. -/
theorem Spells.of_append {front rest : List Char} {bytes frontBytes : Bytes}
    (h : Spells Number (front ++ rest) bytes) (hfront : Spells Numeral front frontBytes)
    (hn : ∀ width n cs, Number width n cs → Numeral width n cs) :
    ∃ more, Spells Number rest more := by
  induction hfront generalizing bytes with
  | nil => exact ⟨bytes, h⟩
  | plain hc _ ih =>
    obtain ⟨more, hmore⟩ := h.of_plain hc
    exact ih hmore
  | @escape es cs _ _ he _ ih =>
    obtain ⟨es', rest', _, _, hsame, he', hrest⟩ := h.of_escape
    obtain ⟨-, rfl⟩ := he.unique (he'.mono hn) ((List.append_assoc es cs rest).symm.trans hsame)
    exact ih hrest

end

theorem HasSign.not_spells {cs : List Char} (h : HasSign cs) (bytes : Bytes) :
    ¬ Spells Text.IsHexField cs bytes := by
  intro hs
  obtain ⟨front, _, c, rest, rfl, hfront, hc⟩ := h
  obtain ⟨_, hmore⟩ := hs.of_append hfront fun _ _ _ => .digits
  obtain ⟨es, after, _, _, hes, he, -⟩ := hmore.of_escape
  have hsign : ∀ {width n : Nat} {ds : List Char}, Text.IsHexField (width + 1) n ds →
      '+' :: rest ≠ ds ++ after := by
    intro width n ds hds hsame
    cases ds with
    | nil => cases hds.length_eq
    | cons d ds =>
      cases hsame
      exact hds.not_sign
  cases he with
  | short hshort =>
    obtain ⟨rfl, -⟩ := List.cons.inj hes
    rcases hc with rfl | rfl <;> cases hshort
  | byte hds => exact hsign hds (List.cons.inj hes).2
  | codePoint hds => exact hsign hds (List.cons.inj hes).2

/-- Numbers in escapes are made of digits alone just if none of them has a sign. -/
theorem spells_isHexField_iff {cs : List Char} {bytes : Bytes} :
    Spells Text.IsHexField cs bytes ↔ Spells Numeral cs bytes ∧ ¬ HasSign cs := by
  constructor
  · intro h
    exact ⟨h.mono fun _ _ _ => .digits, fun hsign => hsign.not_spells bytes h⟩
  · rintro ⟨h, hsign⟩
    induction h with
    | nil => exact .nil
    | @plain c cs bytes hc _ ih =>
      refine .plain hc (ih ?_)
      rintro ⟨front, frontBytes, d, rest, rfl, hfront, hd⟩
      exact hsign ⟨c :: front, _, d, rest, rfl, .plain hc hfront, hd⟩
    | @escape es cs _ _ he _ ih =>
      refine .escape ?_ (ih ?_)
      · cases he with
        | short h => exact .short h
        | byte h =>
          cases h with
          | digits h => exact .byte h
          | signed h => exact absurd ⟨[], [], 'x', _, rfl, .nil, .inl rfl⟩ hsign
        | codePoint h =>
          cases h with
          | digits h => exact .codePoint h
          | signed h => exact absurd ⟨[], [], 'u', _, rfl, .nil, .inr rfl⟩ hsign
      · rintro ⟨front, frontBytes, d, rest, rfl, hfront, hd⟩
        refine hsign ⟨'\\' :: (es ++ front), _, d, rest, ?_, .escape he hfront, hd⟩
        rw [List.cons_append, List.append_assoc]

end Literal

/-- A literal is read just if it spells some bytes, and as these bytes. The number of an
escape is as it should be, all hexadecimal digits, just if it does not start with a plus sign.
Every other literal is refused for its first backslash without an escape behind it, and the
error tells what stands there. -/
theorem a_literal_is_read_just_if_it_is_spelled (literal : String) :
    (∀ bytes, Literal.read literal = .ok bytes ↔
      Literal.Spells Literal.Numeral literal.toList bytes) ∧
    (∀ bytes, Literal.Spells Text.IsHexField literal.toList bytes ↔
      Literal.read literal = .ok bytes ∧ ¬ Literal.HasSign literal.toList) ∧
    (∀ e, Literal.read literal = .error e ↔ ∃ front bytes rest,
      literal.toList = front ++ '\\' :: rest ∧ Literal.Spells Literal.Numeral front bytes ∧
        (∀ es after more, rest = es ++ after → ¬ Literal.Escape Literal.Numeral es more) ∧
        e.text = String.ofList (Literal.attempt rest)) := by
  refine ⟨?_, ?_, ?_⟩
  · intro bytes
    exact Literal.read_eq_ok_iff
  · intro bytes
    rw [Literal.read_eq_ok_iff]
    exact Literal.spells_isHexField_iff
  · intro e
    simp only [Literal.read_eq_error_iff, Literal.readEscape_eq_error_iff]

/-- The sign takes the place of the first of two digits. -/
theorem a_sign_is_read_as_a_digit : Literal.read "\\x+5" = .ok [5] ∧
    ∀ bytes, ¬ Literal.Spells Text.IsHexField "\\x+5".toList bytes := by
  have hsign : Literal.HasSign "\\x+5".toList := ⟨[], [], 'x', ['5'], rfl, .nil, .inl rfl⟩
  exact ⟨by decide +kernel, hsign.not_spells⟩

end WordMachine
