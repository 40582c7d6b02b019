-- The encoding of instructions. Each operation owns a range of words: its
-- code, and the words after it that hold other registers in their low bits.
-- The ranges do not meet, so decoding finds the operation that was encoded,
-- whichever of the three searches it is found by.
import Mathlib.Algebra.Ring.Nat
import WordMachine.Instruction.Decoding
import WordMachine.Proofs.Words

namespace WordMachine

/-! ## The words of an operation -/

namespace Opcode

/-- The word is the code of the operation with some registers packed in. -/
def Owns (op : Opcode) (w : UInt16) : Prop :=
  op.code.toNat ≤ w.toNat ∧ w.toNat < op.code.toNat + 16 ^ op.shape.registers

theorem ranges_apart : ∀ op ∈ all, ∀ op' ∈ all, op = op' ∨
    op.code.toNat + 16 ^ op.shape.registers ≤ op'.code.toNat ∨
    op'.code.toNat + 16 ^ op'.shape.registers ≤ op.code.toNat := by
  decide +kernel

/-- The operand bits of a code are clear, and setting them never carries. -/
theorem code_aligned : ∀ op ∈ all, op.code.toNat % 16 ^ op.shape.registers = 0 ∧
    op.code.toNat + 16 ^ op.shape.registers ≤ 65536 := by
  decide +kernel

/-- No word belongs to two operations. -/
theorem owner_unique {op op' : Opcode} {w : UInt16} (h : op.Owns w) (h' : op'.Owns w) :
    op = op' := by
  obtain ⟨h1, h2⟩ := h
  obtain ⟨h3, h4⟩ := h'
  rcases ranges_apart op (mem_all op) op' (mem_all op') with h | h | h
  · exact h
  · omega
  · omega

theorem owns_code (op : Opcode) : op.Owns op.code := by
  refine ⟨Nat.le_refl _, ?_⟩
  have : 0 < 16 ^ op.shape.registers := Nat.pow_pos (by decide)
  omega

theorem ofPattern?_eq_some_iff {r : Nat} {pattern : UInt16} {op : Opcode} :
    ofPattern? r pattern = some op ↔ op.shape.registers = r ∧ op.code = pattern := by
  unfold ofPattern?
  constructor
  · intro h
    simpa using List.find?_some h
  · rintro ⟨rfl, rfl⟩
    cases hf : all.find? fun x => x.shape.registers == op.shape.registers && x.code == op.code with
    | none =>
      have := List.find?_eq_none.1 hf op (mem_all op)
      simp at this
    | some op' =>
      have hp := List.find?_some hf
      simp only [Bool.and_eq_true, beq_iff_eq] at hp
      have ho := owns_code op'
      rw [hp.2] at ho
      rw [owner_unique ho (owns_code op)]

/-! ## The three searches

A search with `r` registers clears the low `r` groups of four bits. What is
left is the code of an operation just when the operation owns the word. -/

/-- A mask of the high bits clears the low `k` ones. -/
theorem and_high_bits {n k : Nat} (hn : n < 2 ^ 16) (hk : k ≤ 16) :
    n &&& ((2 ^ (16 - k) - 1) <<< k) = n / 2 ^ k * 2 ^ k := by
  rw [← Nat.shiftRight_eq_div_pow, ← Nat.shiftLeft_eq]
  apply Nat.eq_of_testBit_eq
  intro i
  simp only [Nat.testBit_and, Nat.testBit_shiftLeft, Nat.testBit_two_pow_sub_one,
    Nat.testBit_shiftRight]
  by_cases hi : k ≤ i
  · rw [show k + (i - k) = i by omega]
    by_cases h16 : i < 16
    · have : i - k < 16 - k := by omega
      simp [hi, this]
    · have : n.testBit i = false :=
        Nat.testBit_lt_two_pow (Nat.lt_of_lt_of_le hn (Nat.pow_le_pow_right (by decide) (by omega)))
      simp [this]
  · simp [hi]

theorem toNat_clear_four (w : UInt16) : (w &&& 0xFFF0).toNat = w.toNat / 16 * 16 :=
  and_high_bits (k := 4) w.toNat_lt (by decide)

theorem toNat_clear_eight (w : UInt16) : (w &&& 0xFF00).toNat = w.toNat / 256 * 256 :=
  and_high_bits (k := 8) w.toNat_lt (by decide)

theorem ofPattern?_zero {w : UInt16} {op : Opcode} :
    ofPattern? 0 w = some op ↔ op.shape.registers = 0 ∧ op.Owns w := by
  rw [ofPattern?_eq_some_iff, ← UInt16.toNat_inj]
  apply and_congr_right
  intro hr
  simp only [Owns, hr]
  omega

theorem ofPattern?_one {w : UInt16} {op : Opcode} :
    ofPattern? 1 (w &&& 0xFFF0) = some op ↔ op.shape.registers = 1 ∧ op.Owns w := by
  rw [ofPattern?_eq_some_iff, ← UInt16.toNat_inj, toNat_clear_four]
  apply and_congr_right
  intro hr
  have ha := (code_aligned op (mem_all op)).1
  simp only [Owns, hr] at ha ⊢
  omega

theorem ofPattern?_two {w : UInt16} {op : Opcode} :
    ofPattern? 2 (w &&& 0xFF00) = some op ↔ op.shape.registers = 2 ∧ op.Owns w := by
  rw [ofPattern?_eq_some_iff, ← UInt16.toNat_inj, toNat_clear_eight]
  apply and_congr_right
  intro hr
  have ha := (code_aligned op (mem_all op)).1
  simp only [Owns, hr] at ha ⊢
  omega

end Opcode

/-! ## Registers in a word -/

namespace Register

theorem toNat_nibble (r : Register) : r.nibble.toNat = r.index.val := by
  cases r <;> rfl

theorem ofNibble_eq {w : UInt16} {r : Register} (h : w.toNat % 16 = r.index.val) :
    ofNibble w = r := by
  rw [← ofIndex_index r]
  unfold ofNibble
  congr 1
  exact Fin.ext h

theorem index_ofNibble (w : UInt16) : (ofNibble w).index.val = w.toNat % 16 := by
  rw [ofNibble, index_ofIndex]

end Register

namespace Instruction

variable {ι : Type}

/-- The value of the operand bits of an instruction word. -/
def operandBits (i : Instruction ι) : Nat :=
  match i.opcode.shape.registers with
  | 0 => 0
  | 1 => (nibble i.a).toNat
  | _ => (nibble i.a).toNat * 16 + (nibble i.b).toNat

theorem nibble_lt (r : Option Register) : (nibble r).toNat < 16 := by
  cases r with
  | none => decide
  | some r =>
    simp only [nibble, Option.map_some, Option.getD_some, Register.toNat_nibble]
    exact r.index.isLt

theorem registers_cases (s : Shape) : s.registers = 0 ∨ s.registers = 1 ∨ s.registers = 2 := by
  cases s <;> decide

theorem Fits.registers {i : Instruction ι} (h : i.Fits) :
    (i.opcode.shape.registers = 0 ∧ i.a = none ∧ i.b = none) ∨
    (∃ ra, i.opcode.shape.registers = 1 ∧ i.a = some ra ∧ i.b = none) ∨
    ∃ ra rb, i.opcode.shape.registers = 2 ∧ i.a = some ra ∧ i.b = some rb := by
  obtain ⟨ha, hb, -⟩ := h
  rcases registers_cases i.opcode.shape with hr | hr | hr <;> rw [hr] at ha hb
  · exact .inl ⟨hr, Option.isNone_iff_eq_none.1 (Option.isSome_eq_false_iff.1 ha),
      Option.isNone_iff_eq_none.1 (Option.isSome_eq_false_iff.1 hb)⟩
  · obtain ⟨ra, ha⟩ := Option.isSome_iff_exists.1 ha
    exact .inr (.inl ⟨ra, hr, ha, Option.isNone_iff_eq_none.1 (Option.isSome_eq_false_iff.1 hb)⟩)
  · obtain ⟨ra, ha⟩ := Option.isSome_iff_exists.1 ha
    obtain ⟨rb, hb⟩ := Option.isSome_iff_exists.1 hb
    exact .inr (.inr ⟨ra, rb, hr, ha, hb⟩)

theorem operandBits_lt (i : Instruction ι) : i.operandBits < 16 ^ i.opcode.shape.registers := by
  have ha := nibble_lt i.a
  have hb := nibble_lt i.b
  unfold operandBits
  rcases registers_cases i.opcode.shape with h | h | h <;> rw [h] <;> simp only <;> omega

theorem toNat_or_of_aligned {c x : UInt16} {k : Nat} (hc : c.toNat % 2 ^ k = 0)
    (hx : x.toNat < 2 ^ k) : (c ||| x).toNat = c.toNat + x.toNat := by
  have h : c.toNat = (c.toNat / 2 ^ k) <<< k := by
    rw [Nat.shiftLeft_eq]
    exact (Nat.div_mul_cancel (Nat.dvd_of_mod_eq_zero hc)).symm
  rw [UInt16.toNat_or, h, Nat.shiftLeft_add_eq_or_of_lt hx]

/-- The word of an instruction is the code of its operation plus its operand
bits. -/
theorem toNat_word (i : Instruction ι) :
    i.word.toNat = i.opcode.code.toNat + i.operandBits := by
  have hc := (Opcode.code_aligned i.opcode (Opcode.mem_all _)).1
  have ha := nibble_lt i.a
  have hb := nibble_lt i.b
  unfold word operandBits
  rcases registers_cases i.opcode.shape with h | h | h
  · simp [h]
  · rw [h] at hc ⊢
    exact toNat_or_of_aligned (k := 4) (by simpa using hc) ha
  · rw [h] at hc ⊢
    have hs : (nibble i.a <<< 4).toNat = (nibble i.a).toNat * 16 := by
      rw [UInt16.toNat_shiftLeft]
      have h4 : (4 : UInt16).toNat % 16 = 4 := rfl
      rw [h4, Nat.shiftLeft_eq]
      omega
    have h1 := toNat_or_of_aligned (k := 8) (c := i.opcode.code) (x := nibble i.a <<< 4)
      (by omega) (by omega)
    have h2 := toNat_or_of_aligned (k := 4) (c := i.opcode.code ||| nibble i.a <<< 4)
      (x := nibble i.b) (by omega) (by omega)
    simp only
    omega

theorem owns_word (i : Instruction ι) : i.opcode.Owns i.word := by
  have h := toNat_word i
  have hb := operandBits_lt i
  exact ⟨by omega, by omega⟩

/-! ## Decoding and encoding a word -/

/-- The instruction of an operation with the registers of one of its words. -/
def ofWord (op : Opcode) (w : UInt16) : Instruction UInt16 :=
  match op.shape.registers with
  | 0 => ⟨op, none, none, none⟩
  | 1 => ⟨op, some (.ofNibble w), none, none⟩
  | _ => ⟨op, some (.ofNibble (w >>> 4)), some (.ofNibble w), none⟩

@[simp] theorem opcode_ofWord (op : Opcode) (w : UInt16) : (ofWord op w).opcode = op := by
  unfold ofWord
  split <;> rfl

@[simp] theorem immediate_ofWord (op : Opcode) (w : UInt16) : (ofWord op w).immediate = none := by
  unfold ofWord
  split <;> rfl

theorem decode_of_owns {op : Opcode} {w : UInt16} (h : op.Owns w) : decode w = .ok (ofWord op w) := by
  unfold decode ofWord
  have hnone : ∀ {r : Nat} {p : UInt16}, (∀ {op' : Opcode}, Opcode.ofPattern? r p = some op' →
      op'.shape.registers = r ∧ op'.Owns w) → op.shape.registers ≠ r →
      Opcode.ofPattern? r p = none := by
    intro r p hp hr
    cases hf : Opcode.ofPattern? r p with
    | none => rfl
    | some op' =>
      obtain ⟨h1, h2⟩ := hp hf
      exact absurd h1 (Opcode.owner_unique h2 h ▸ hr)
  rcases registers_cases op.shape with hr | hr | hr
  · rw [Opcode.ofPattern?_zero.2 ⟨hr, h⟩, hr]
    rfl
  · rw [hnone Opcode.ofPattern?_zero.1 (by omega), Opcode.ofPattern?_one.2 ⟨hr, h⟩, hr]
    rfl
  · rw [hnone Opcode.ofPattern?_zero.1 (by omega), hnone Opcode.ofPattern?_one.1 (by omega),
      Opcode.ofPattern?_two.2 ⟨hr, h⟩, hr]
    rfl

theorem decode_eq_ok_iff {w : UInt16} {i : Instruction UInt16} :
    decode w = .ok i ↔ i.opcode.Owns w ∧ i = ofWord i.opcode w := by
  constructor
  · intro h
    obtain ⟨op, ho⟩ : ∃ op : Opcode, op.Owns w := by
      unfold decode at h
      split at h
      · exact ⟨_, (Opcode.ofPattern?_zero.1 ‹_›).2⟩
      · split at h
        · exact ⟨_, (Opcode.ofPattern?_one.1 ‹_›).2⟩
        · split at h
          · exact ⟨_, (Opcode.ofPattern?_two.1 ‹_›).2⟩
          · cases h
    rw [decode_of_owns ho] at h
    cases h
    simp [ho]
  · rintro ⟨ho, hi⟩
    rw [decode_of_owns ho, ← hi]

theorem toNat_shiftRight_four (w : UInt16) : (w >>> 4).toNat = w.toNat / 16 := by
  rw [UInt16.toNat_shiftRight]
  have h4 : (4 : UInt16).toNat % 16 = 4 := rfl
  rw [h4, Nat.shiftRight_eq_div_pow]

/-- The registers of an encoded instruction come back from its word. -/
theorem ofWord_word {i : Instruction ι} (h : i.Fits) :
    ofWord i.opcode i.word = ⟨i.opcode, i.a, i.b, none⟩ := by
  have hw := toNat_word i
  have hc := (Opcode.code_aligned i.opcode (Opcode.mem_all _)).1
  unfold operandBits at hw
  unfold ofWord
  rcases h.registers with ⟨hr, ha, hb⟩ | ⟨ra, hr, ha, hb⟩ | ⟨ra, rb, hr, ha, hb⟩ <;>
    rw [hr, ha, hb] <;> rw [hr, ha, hb] at hw <;> rw [hr] at hc
  · rfl
  · have hn : (nibble (some ra)).toNat = ra.index.val := Register.toNat_nibble ra
    have hl := ra.index.isLt
    simp only at hw
    simp only [Register.ofNibble_eq (r := ra) (w := i.word) (by omega)]
  · have hna : (nibble (some ra)).toNat = ra.index.val := Register.toNat_nibble ra
    have hnb : (nibble (some rb)).toNat = rb.index.val := Register.toNat_nibble rb
    have hla := ra.index.isLt
    have hlb := rb.index.isLt
    have hs := toNat_shiftRight_four i.word
    simp only at hw
    simp only [Register.ofNibble_eq (r := rb) (w := i.word) (by omega),
      Register.ofNibble_eq (r := ra) (w := i.word >>> 4) (by omega)]

theorem toNat_nibble_ofNibble (w : UInt16) :
    (nibble (some (Register.ofNibble w))).toNat = w.toNat % 16 := by
  rw [← Register.index_ofNibble]
  exact Register.toNat_nibble _

/-- A word is the word of the instruction that is read from it. -/
theorem word_ofWord {op : Opcode} {w : UInt16} (h : op.Owns w) : (ofWord op w).word = w := by
  obtain ⟨hle, hlt⟩ := h
  have hc := (Opcode.code_aligned op (Opcode.mem_all _)).1
  have hs := toNat_shiftRight_four w
  apply UInt16.toNat_inj.1
  rw [toNat_word, opcode_ofWord]
  unfold operandBits ofWord
  rcases registers_cases op.shape with hr | hr | hr <;> rw [hr] at hlt hc ⊢ <;>
    simp only [hr, toNat_nibble_ofNibble] <;> omega

theorem fits_ofWord {op : Opcode} (w : UInt16) {imm : Option UInt16}
    (h : imm.isSome = op.shape.takesImmediate) :
    ({ ofWord op w with immediate := imm } : Instruction UInt16).Fits := by
  refine ⟨?_, ?_, by simpa using h⟩
  · unfold ofWord
    rcases registers_cases op.shape with hr | hr | hr <;> rw [hr] <;> simp [hr]
  · unfold ofWord
    rcases registers_cases op.shape with hr | hr | hr <;> rw [hr] <;> simp [hr]

/-- Decoding the word of an instruction gives its operation and registers. -/
theorem decode_word {i : Instruction ι} (h : i.Fits) :
    decode i.word = .ok ⟨i.opcode, i.a, i.b, none⟩ := by
  rw [decode_of_owns (owns_word i), ofWord_word h]

/-- A word that can be decoded is the word of what it decodes to. -/
theorem word_of_decode {w : UInt16} {i : Instruction UInt16} (h : decode w = .ok i) :
    i.word = w := by
  obtain ⟨ho, hi⟩ := decode_eq_ok_iff.1 h
  rw [hi]
  exact word_ofWord ho

/-- The error of a word that cannot be decoded names the word. -/
theorem word_of_decode_error {w : UInt16} {e : InvalidOpcode} (h : decode w = .error e) :
    e.word = w := by
  unfold decode at h
  repeat' split at h
  all_goals cases h
  rfl

/-! ## Checked instructions -/

theorem check_eq_ok_iff {i j : Instruction ι} : i.check = .ok j ↔ i.Fits ∧ j = i := by
  unfold check
  split
  · simp [*, eq_comm]
  · simp [*]

/-! ## Bytes -/

theorem length_toBytes (i : Instruction UInt16) : i.toBytes.length = i.byteLength := by
  unfold toBytes byteLength Opcode.byteLength Shape.byteLength
  split <;> simp [Word.toBytes]

theorem toBytes_of_immediate {i : Instruction UInt16} (h : i.Fits) :
    i.toBytes = Word.toBytes i.word ++ (i.immediate.map Word.toBytes).getD [] := by
  obtain ⟨_, _, hi⟩ := h
  unfold toBytes
  split
  · rename_i ht
    rw [ht] at hi
    obtain ⟨imm, himm⟩ := Option.isSome_iff_exists.1 hi
    simp [himm]
  · rename_i ht
    obtain himm := Option.not_isSome_iff_eq_none.1 (hi ▸ ht)
    simp [himm]

/-- An encoded instruction is read back, whatever follows it. -/
theorem read?_toBytes {i : Instruction UInt16} (h : i.Fits) (rest : Bytes) :
    read? (i.toBytes ++ rest) = some (i, rest) := by
  have hd := decode_word h
  rw [toBytes_of_immediate h]
  obtain ⟨_, _, hi⟩ := h
  obtain ⟨op, a, b, imm⟩ := i
  cases imm with
  | none =>
    simp only [Option.isSome_none] at hi
    simp [read?, Word.toBytes, hd, readImmediate?, ← hi]
  | some v =>
    simp only [Option.isSome_some] at hi
    simp [read?, Word.toBytes, hd, readImmediate?, ← hi]

theorem toBytes_of_readImmediate? {w : UInt16} {bytes rest : Bytes} {i j : Instruction UInt16}
    (hj : decode w = .ok j) (h : j.readImmediate? bytes = some (i, rest)) :
    i.Fits ∧ i.toBytes ++ rest = Word.toBytes w ++ bytes := by
  obtain ⟨ho, hof⟩ := decode_eq_ok_iff.1 hj
  have hfits : ∀ imm : Option UInt16, imm.isSome = j.opcode.shape.takesImmediate →
      ({ j with immediate := imm } : Instruction UInt16).Fits := by
    intro imm himm
    rw [hof]
    exact fits_ofWord w (by simpa using himm)
  have hword : ∀ imm : Option UInt16, ({ j with immediate := imm } : Instruction UInt16).word = w :=
    fun _ => show j.word = w from word_of_decode hj
  unfold readImmediate? at h
  split at h
  · rename_i ht
    split at h
    · rename_i hi lo tail
      cases h
      have hf := hfits (some (Word.ofBytes hi lo)) (by simp [ht])
      refine ⟨hf, ?_⟩
      rw [toBytes_of_immediate hf, hword]
      simp [Word.toBytes]
    · cases h
  · rename_i ht
    cases h
    have hnone : i.immediate = none := by
      rw [hof]
      exact immediate_ofWord ..
    have hf : i.Fits := by
      have := hfits none (by simpa using ht)
      rwa [← hnone] at this
    refine ⟨hf, ?_⟩
    rw [toBytes_of_immediate hf, word_of_decode hj, hnone]
    simp

/-- What is read from the front of some bytes is encoded there. -/
theorem toBytes_of_read? {bytes rest : Bytes} {i : Instruction UInt16}
    (h : read? bytes = some (i, rest)) : i.Fits ∧ i.toBytes ++ rest = bytes := by
  unfold read? at h
  split at h
  · rename_i hi lo tail
    split at h
    · rename_i j hj
      obtain ⟨hf, hb⟩ := toBytes_of_readImmediate? hj h
      refine ⟨hf, ?_⟩
      rw [hb, Word.toBytes_ofBytes]
      rfl
    · cases h
  · cases h

end Instruction

end WordMachine
