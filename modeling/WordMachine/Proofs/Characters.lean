-- Classes of characters as ranges of code points.
import WordMachine.Source.Lexeme

namespace WordMachine

/-- What holds of the characters with the first `b` code points holds of each of these. -/
theorem of_toNat_lt {P : Char → Prop} {b : Nat} (h : ∀ n < b, P (Char.ofNat n)) {c : Char}
    (hc : c.toNat < b) : P c := by
  have hp := h c.toNat hc
  rwa [Char.ofNat_toNat] at hp

theorem isDigit_iff (c : Char) : c.isDigit = true ↔ 48 ≤ c.toNat ∧ c.toNat ≤ 57 :=
  Char.isDigit_iff_toNat

theorem isNameStart_iff (c : Char) : isNameStart c = true ↔
    65 ≤ c.toNat ∧ c.toNat ≤ 90 ∨ 97 ≤ c.toNat ∧ c.toNat ≤ 122 ∨ c.toNat = 95 := by
  have hA : 'A'.val.toNat = 65 := rfl
  have hZ : 'Z'.val.toNat = 90 := rfl
  have ha : 'a'.val.toNat = 97 := rfl
  have hz : 'z'.val.toNat = 122 := rfl
  have hu : c = '_' ↔ c.toNat = 95 := by rw [← Char.toNat_inj]; rfl
  have hclass : isNameStart c = ((decide (c.val ≥ 'A'.val ∧ c.val ≤ 'Z'.val) ||
      c.val ≥ 'a'.val && c.val ≤ 'z'.val) || c == '_') := rfl
  simp only [hclass, Bool.and_eq_true, Bool.or_eq_true, decide_eq_true_eq, ge_iff_le,
    UInt32.le_iff_toNat_le, beq_iff_eq, hu, Char.toNat, hA, hZ, ha, hz, or_assoc]

theorem isHexDigit_iff (c : Char) : isHexDigit c = true ↔
    48 ≤ c.toNat ∧ c.toNat ≤ 57 ∨ 97 ≤ c.toNat ∧ c.toNat ≤ 102 ∨ 65 ≤ c.toNat ∧ c.toNat ≤ 70 := by
  have hA : 'A'.val.toNat = 65 := rfl
  have hF : 'F'.val.toNat = 70 := rfl
  have ha : 'a'.val.toNat = 97 := rfl
  have hf : 'f'.val.toNat = 102 := rfl
  simp only [isHexDigit, Bool.or_eq_true, isDigit_iff, Bool.and_eq_true, decide_eq_true_eq,
    Char.le_def, UInt32.le_iff_toNat_le, Char.toNat, hA, hF, ha, hf, or_assoc]

theorem isNameChar_of_isHexDigit {c : Char} (h : isHexDigit c = true) : isNameChar c = true := by
  rw [isHexDigit_iff] at h
  unfold isNameChar
  rw [Bool.or_eq_true, isNameStart_iff, isDigit_iff]
  omega

theorem isBlank_iff (c : Char) : isBlank c = true ↔ c.toNat = 32 ∨ c.toNat = 9 := by
  have hs : c = ' ' ↔ c.toNat = 32 := by rw [← Char.toNat_inj]; rfl
  have ht : c = '\t' ↔ c.toNat = 9 := by rw [← Char.toNat_inj]; rfl
  simp only [isBlank, Bool.or_eq_true, beq_iff_eq, hs, ht]

theorem isBlank_of_isNameChar {c : Char} (h : isNameChar c = true) : isBlank c = false := by
  rw [Bool.eq_false_iff, ne_eq, isBlank_iff]
  unfold isNameChar at h
  rw [Bool.or_eq_true, isNameStart_iff, isDigit_iff] at h
  omega

theorem isNameChar_of_isNameStart {c : Char} (h : isNameStart c = true) : isNameChar c = true := by
  unfold isNameChar
  rw [h]
  rfl

/-- Only basic Latin letters have an upper case here. -/
theorem toUpper_of_large {c : Char} (h : 128 ≤ c.toNat) : c.toUpper = c := by
  apply dif_neg
  rintro ⟨-, hz⟩
  exact Nat.not_le_of_lt (Nat.lt_of_le_of_lt (UInt32.le_iff_toNat_le.1 hz) (by decide)) h

end WordMachine
