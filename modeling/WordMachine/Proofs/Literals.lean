-- Writing literals: a row of bytes comes back from its literal, which can stand between
-- quotes.
import WordMachine.Proofs.Escapes

namespace WordMachine

namespace Literal

/-! ## Reading what was written -/

/-- The byte stands for itself in a literal, if it is no backslash. -/
def IsPlain (b : UInt8) : Prop := 0x20 ≤ b ∧ b ≤ 0x7E ∧ b ≠ 0x22

theorem char_of_isPlain {b : UInt8} (h : IsPlain b) :
    (Char.ofNat b.toNat).toNat = b.toNat ∧ String.utf8EncodeChar (Char.ofNat b.toNat) = [b] := by
  have hall : ∀ n < 0x7F, (Char.ofNat n).toNat = n ∧
      String.utf8EncodeChar (Char.ofNat n) = [UInt8.ofNat n] := by decide
  have := hall b.toNat (Nat.lt_succ_of_le (UInt8.le_iff_toNat_le.1 h.2.1))
  rwa [UInt8.ofNat_toNat] at this

/-- A byte is spelled by what is written for it, whatever follows. -/
theorem spells_writeByte {cs : List Char} {bytes : Bytes} (h : Spells Text.IsHexField cs bytes)
    (b : UInt8) : Spells Text.IsHexField (writeByte b ++ cs) (b :: bytes) := by
  unfold writeByte
  split
  · rename_i hb
    rw [hb]
    exact .escape (.short .backslash) h
  split
  · rename_i hb
    rw [hb]
    exact .escape (.short .lineFeed) h
  split
  · rename_i hb
    rw [hb]
    exact .escape (.short .carriageReturn) h
  split
  · rename_i hb
    rw [hb]
    exact .escape (.short .tab) h
  split
  · rename_i hslash _ _ _ hb
    obtain ⟨hn, hu⟩ := char_of_isPlain hb
    have hc : Char.ofNat b.toNat ≠ '\\' := by
      intro he
      rw [he] at hn
      exact hslash (UInt8.toNat_inj.1 hn.symm)
    have hplain := Spells.plain hc h
    rwa [hu] at hplain
  · exact .escape (.byte (Text.isHexField_hexField b.toNat_lt)) h

theorem spells_write (bytes : Bytes) : Spells Text.IsHexField (write bytes).toList bytes := by
  unfold write
  rw [String.toList_ofList]
  induction bytes with
  | nil => exact .nil
  | cons b bs ih =>
    rw [List.flatMap_cons]
    exact spells_writeByte ih b

/-- Bytes come back from their literal. -/
theorem read_write (bytes : Bytes) : read (write bytes) = .ok bytes :=
  read_eq_ok_iff.2 ((spells_write bytes).mono fun _ _ _ => .digits)

/-! ## The characters of a literal -/

/-- The character is a printable one of basic Latin, and no quote. -/
def IsPrintable (c : Char) : Prop := 0x20 ≤ c.toNat ∧ c.toNat ≤ 0x7E ∧ c.toNat ≠ 0x22

theorem isPrintable_of_mem_escape {c d : Char} (hd : IsPrintable d) {cs : List Char}
    (hcs : ∀ e ∈ cs, isHexDigit e = true) (h : c ∈ '\\' :: d :: cs) : IsPrintable c := by
  rcases List.mem_cons.1 h with rfl | h
  · unfold IsPrintable
    decide
  · rcases List.mem_cons.1 h with rfl | h
    · exact hd
    · have hx := hcs c h
      rw [isHexDigit_iff] at hx
      unfold IsPrintable
      omega

theorem isPrintable_of_mem_writeByte {b : UInt8} {c : Char} (h : c ∈ writeByte b) :
    IsPrintable c := by
  have hnone : ∀ e ∈ ([] : List Char), isHexDigit e = true := by simp
  unfold writeByte at h
  split at h
  · exact isPrintable_of_mem_escape (by unfold IsPrintable; decide) hnone h
  split at h
  · exact isPrintable_of_mem_escape (by unfold IsPrintable; decide) hnone h
  split at h
  · exact isPrintable_of_mem_escape (by unfold IsPrintable; decide) hnone h
  split at h
  · exact isPrintable_of_mem_escape (by unfold IsPrintable; decide) hnone h
  split at h
  · rename_i hb
    have hn := (char_of_isPlain hb).1
    obtain ⟨hlow, hhigh, hq⟩ := hb
    rw [List.mem_singleton.1 h]
    unfold IsPrintable
    rw [hn]
    exact ⟨UInt8.le_iff_toNat_le.1 hlow, UInt8.le_iff_toNat_le.1 hhigh,
      fun he => hq (UInt8.toNat_inj.1 he)⟩
  · exact isPrintable_of_mem_escape (by unfold IsPrintable; decide)
      (fun e he => Text.isHexDigit_of_mem_hexField he) h

/-- A literal is made of printable basic Latin characters, of which none is a quote. -/
theorem isPrintable_of_mem_write {bytes : Bytes} {c : Char} (h : c ∈ (write bytes).toList) :
    IsPrintable c := by
  unfold write at h
  rw [String.toList_ofList, List.mem_flatMap] at h
  obtain ⟨b, -, hc⟩ := h
  exact isPrintable_of_mem_writeByte hc

theorem isInString_of_mem_write {bytes : Bytes} {c : Char} (h : c ∈ (write bytes).toList) :
    isInString c = true := by
  obtain ⟨hlow, -, hquote⟩ := isPrintable_of_mem_write h
  have hq : c ≠ '"' := by
    rintro rfl
    exact hquote rfl
  have hr : c ≠ '\r' := by
    rintro rfl
    exact absurd hlow (by decide)
  have hn : c ≠ '\n' := by
    rintro rfl
    exact absurd hlow (by decide)
  simp [isInString, isInLine, hq, hr, hn]

end Literal

end WordMachine
