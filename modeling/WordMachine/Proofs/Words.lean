-- Words as numbers: the two bytes of a word are its quotient and its
-- remainder by 256, so a word and its two bytes determine each other.
import WordMachine.Word

namespace WordMachine.Word

/-! ## The values of the parts -/

theorem toNat_high (w : UInt16) : (high w).toNat = w.toNat / 256 := by
  have h := w.toNat_lt
  simp only [high, UInt16.toNat_toUInt8, UInt16.toNat_shiftRight]
  simp [Nat.shiftRight_eq_div_pow]
  omega

theorem toNat_low (w : UInt16) : (low w).toNat = w.toNat % 256 := by
  simp [low]

theorem toNat_ofBytes (hi lo : UInt8) :
    (ofBytes hi lo).toNat = hi.toNat * 256 + lo.toNat := by
  have hlo := lo.toNat_lt
  have hhi := hi.toNat_lt
  simp only [ofBytes, UInt16.toNat_or, UInt16.toNat_shiftLeft, UInt8.toNat_toUInt16]
  have h8 : (8 : UInt16).toNat % 16 = 8 := rfl
  rw [h8, Nat.mod_eq_of_lt (by rw [Nat.shiftLeft_eq]; omega),
    ← Nat.shiftLeft_add_eq_or_of_lt hlo, Nat.shiftLeft_eq]

/-! ## A word and its bytes -/

@[simp] theorem ofBytes_high_low (w : UInt16) : ofBytes (high w) (low w) = w := by
  apply UInt16.toNat_inj.1
  rw [toNat_ofBytes, toNat_high, toNat_low]
  omega

@[simp] theorem high_ofBytes (hi lo : UInt8) : high (ofBytes hi lo) = hi := by
  apply UInt8.toNat_inj.1
  rw [toNat_high, toNat_ofBytes]
  have := lo.toNat_lt
  omega

@[simp] theorem low_ofBytes (hi lo : UInt8) : low (ofBytes hi lo) = lo := by
  apply UInt8.toNat_inj.1
  rw [toNat_low, toNat_ofBytes]
  have := lo.toNat_lt
  omega

theorem toBytes_ofBytes (hi lo : UInt8) : toBytes (ofBytes hi lo) = [hi, lo] := by
  simp [toBytes]

end WordMachine.Word
