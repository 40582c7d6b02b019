-- Hexadecimal numerals: digits in upper or in lower case are read as the number whose
-- digits they are, so a number comes back from its digits.
import Mathlib.Algebra.Ring.Nat
import Mathlib.Data.List.Induction
import WordMachine.Proofs.Characters
import WordMachine.Text.Numeral

namespace WordMachine.Text

theorem isHexDigit_hexDigit {n : Nat} (h : n < 16) : isHexDigit (hexDigit n) = true := by
  revert n
  decide

theorem isHexDigit_of_mem_hexField {width n : Nat} {c : Char} (h : c ∈ hexField width n) :
    isHexDigit c = true := by
  induction width generalizing n with
  | zero => cases h
  | succ width ih =>
    rw [hexField, List.mem_append, List.mem_singleton] at h
    rcases h with h | rfl
    · exact ih h
    · exact isHexDigit_hexDigit (Nat.mod_lt _ (by decide))

/-- The characters are `width` hexadecimal digits of either case that denote the number. -/
structure IsHexField (width n : Nat) (cs : List Char) : Prop where
  digits : cs.map Char.toUpper = hexField width n
  small : n < 16 ^ width

theorem IsHexField.length_eq {width n : Nat} {cs : List Char} (h : IsHexField width n cs) :
    cs.length = width := by
  rw [← List.length_map Char.toUpper, h.digits, length_hexField]

theorem IsHexField.not_sign {width n : Nat} {cs : List Char} :
    ¬ IsHexField width n ('+' :: cs) := by
  intro h
  have hm : '+' ∈ hexField width n := by
    rw [← h.digits]
    exact List.mem_cons_self
  exact absurd (isHexDigit_of_mem_hexField hm) (by decide)

/-- A hexadecimal digit is that of its value, in upper or in lower case. -/
theorem digitValue?_eq_some_iff {c : Char} {d : Nat} :
    digitValue? 16 c = some d ↔ d < 16 ∧ c.toUpper = hexDigit d := by
  by_cases hd : d < 16
  · rw [and_iff_right hd]
    by_cases hc : c.toNat < 128
    · have h : ∀ d < 16, digitValue? 16 c = some d ↔ c.toUpper = hexDigit d := by
        apply of_toNat_lt (b := 128) ?_ hc
        decide +kernel
      exact h d hd
    · -- No digit is a character that is not basic Latin.
      have hlarge : 128 ≤ c.toNat := Nat.le_of_not_lt hc
      have hnone : digitValue? 16 c = none := by
        have hlast : ∀ z : Char, z.toNat < 128 → ¬ c ≤ z := by
          intro z hz hle
          have := UInt32.le_iff_toNat_le.1 hle
          exact Nat.not_le_of_lt hz (Nat.le_trans hlarge this)
        unfold digitValue?
        simp [hlast '9' (by decide), hlast 'z' (by decide), hlast 'Z' (by decide)]
      have hdigit : ∀ d < 16, (hexDigit d).toNat < 128 := by decide
      have hne : c ≠ hexDigit d := by
        rintro rfl
        exact hc (hdigit d hd)
      rw [hnone, toUpper_of_large hlarge]
      simp [hne]
  · have hnone : digitValue? 16 c ≠ some d := by
      intro h
      unfold digitValue? at h
      have := (Option.filter_eq_some_iff.1 h).2
      simp at this
      omega
    simp [hnone, hd]

/-- Digits are read as the number whose digits they are. -/
theorem foldlM_digits_iff {cs : List Char} {n : Nat} :
    cs.foldlM (fun n c => (digitValue? 16 c).map (n * 16 + ·)) 0 = some n ↔
      IsHexField cs.length n cs := by
  induction cs using List.reverseRecOn generalizing n with
  | nil =>
    constructor
    · intro h
      cases h
      exact ⟨rfl, Nat.one_pos⟩
    · rintro ⟨-, hn⟩
      rw [Nat.lt_one_iff.1 hn]
      rfl
  | append_singleton ds c ih =>
    simp only [List.foldlM_append, List.foldlM_cons, List.foldlM_nil, bind_pure,
      Option.bind_eq_bind, Option.bind_eq_some_iff, ih, Option.map_eq_some_iff,
      digitValue?_eq_some_iff]
    have hlen : (ds ++ [c]).length = ds.length + 1 := List.length_append
    rw [hlen]
    constructor
    · rintro ⟨m, ⟨hm, hsmall⟩, d, ⟨hd, hc⟩, rfl⟩
      have hfront : (m * 16 + d) / 16 = m := by omega
      have hlast : (m * 16 + d) % 16 = d := by omega
      refine ⟨?_, ?_⟩
      · rw [List.map_append, List.map_singleton, hm, hc, hexField, hfront, hlast]
      · rw [Nat.pow_succ]
        omega
    · rintro ⟨hdigits, hsmall⟩
      rw [List.map_append, hexField] at hdigits
      obtain ⟨hm, hc⟩ := List.append_inj' hdigits rfl
      rw [Nat.pow_succ] at hsmall
      refine ⟨n / 16, ⟨hm, by omega⟩, n % 16, ⟨Nat.mod_lt n (by decide), ?_⟩, by omega⟩
      exact List.singleton_inj.1 hc

theorem readDigits?_eq_some_iff {cs : List Char} {n : Nat} (h : cs ≠ []) :
    readDigits? 16 cs = some n ↔ IsHexField cs.length n cs := by
  rw [← foldlM_digits_iff]
  cases cs with
  | nil => exact absurd rfl h
  | cons c cs => rfl

theorem readNumeral?_of_isHexDigit {base : Nat} {cs : List Char}
    (h : ∀ c ∈ cs, isHexDigit c = true) : readNumeral? base cs = readDigits? base cs := by
  unfold readNumeral?
  split
  · have := h '+' List.mem_cons_self
    exact absurd this (by decide)
  · rfl

theorem toUpper_hexDigit {n : Nat} (h : n < 16) : (hexDigit n).toUpper = hexDigit n := by
  revert n
  decide

theorem map_toUpper_hexField (width n : Nat) :
    (hexField width n).map Char.toUpper = hexField width n := by
  induction width generalizing n with
  | zero => rfl
  | succ width ih =>
    rw [hexField, List.map_append, ih, List.map_singleton,
      toUpper_hexDigit (Nat.mod_lt n (by decide))]

theorem isHexField_hexField {width n : Nat} (h : n < 16 ^ width) :
    IsHexField width n (hexField width n) := ⟨map_toUpper_hexField width n, h⟩

/-- A number comes back from a field that is wide enough for it. -/
theorem readNumeral?_hexField {width n : Nat} (hw : width ≠ 0) (h : n < 16 ^ width) :
    readNumeral? 16 (hexField width n) = some n := by
  have hlen := length_hexField width n
  have hne : hexField width n ≠ [] := by
    intro he
    rw [he] at hlen
    exact hw hlen.symm
  rw [readNumeral?_of_isHexDigit fun c hc => isHexDigit_of_mem_hexField hc,
    readDigits?_eq_some_iff hne, hlen]
  exact isHexField_hexField h

end WordMachine.Text
