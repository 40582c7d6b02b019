-- Symbol tables as bytes. Each reader takes from the front of its input just
-- the bytes that the writer of the same field makes, so a table and its
-- bytes determine each other.
import WordMachine.Proofs.Outcomes
import WordMachine.Proofs.Words
import WordMachine.SymbolTable.Decoding

namespace WordMachine

namespace Unread

/-! ## What a reader takes -/

/-- The bytes stand at the front of the input, and `v` is what stands behind them. -/
structure Took (u : Unread) (bytes : Bytes) (v : Unread) : Prop where
  bytes_eq : u.bytes = bytes ++ v.bytes
  offset_eq : v.offset = u.offset + bytes.length

theorem took_nil {u v : Unread} : u.Took [] v ↔ v = u := by
  obtain ⟨offset, bytes⟩ := u
  obtain ⟨offset', bytes'⟩ := v
  constructor
  · rintro ⟨hb, ho⟩
    simp only [List.nil_append, List.length_nil, Nat.add_zero] at hb ho
    rw [hb, ho]
  · intro h
    cases h
    exact ⟨rfl, rfl⟩

theorem took_append {u w : Unread} {as bs : Bytes} :
    u.Took (as ++ bs) w ↔ ∃ v, u.Took as v ∧ v.Took bs w := by
  constructor
  · rintro ⟨hb, ho⟩
    refine ⟨⟨u.offset + as.length, bs ++ w.bytes⟩, ⟨?_, rfl⟩, ⟨rfl, ?_⟩⟩
    · rw [hb, List.append_assoc]
    · rw [ho, List.length_append, Nat.add_assoc]
  · rintro ⟨v, ⟨hb, ho⟩, ⟨hb', ho'⟩⟩
    refine ⟨?_, ?_⟩
    · rw [hb, hb', List.append_assoc]
    · rw [ho', ho, List.length_append, Nat.add_assoc]

/-! ## Bytes and words -/

theorem byte_eq_ok_iff {u v : Unread} {b : UInt8} : u.byte = .ok (b, v) ↔ u.Took [b] v := by
  obtain ⟨offset, bytes⟩ := u
  obtain ⟨offset', bytes'⟩ := v
  cases bytes with
  | nil =>
    simp only [byte, reduceCtorEq, false_iff]
    rintro ⟨hb, -⟩
    cases hb
  | cons c cs =>
    simp only [byte, Except.ok.injEq, Prod.mk.injEq, mk.injEq]
    constructor
    · rintro ⟨rfl, rfl, rfl⟩
      exact ⟨rfl, rfl⟩
    · rintro ⟨hb, ho⟩
      simp_all

theorem word_eq_ok_iff {u v : Unread} {w : UInt16} :
    u.word = .ok (w, v) ↔ u.Took (Word.toBytes w) v := by
  obtain ⟨offset, bytes⟩ := u
  obtain ⟨offset', bytes'⟩ := v
  match bytes with
  | [] | [_] =>
    simp only [word, reduceCtorEq, false_iff]
    rintro ⟨hb, -⟩
    simp [Word.toBytes] at hb
  | hi :: lo :: bs =>
    simp only [word, Except.ok.injEq, Prod.mk.injEq, mk.injEq]
    constructor
    · rintro ⟨rfl, rfl, rfl⟩
      exact ⟨by rw [Word.toBytes_ofBytes]; rfl, by rw [Word.length_toBytes]⟩
    · rintro ⟨hb, ho⟩
      simp only [Word.toBytes, List.cons_append, List.nil_append, List.cons.injEq] at hb
      obtain ⟨rfl, rfl, rfl⟩ := hb
      exact ⟨Word.ofBytes_high_low w, ho.symm, rfl⟩

theorem take_eq_ok_iff {u v : Unread} {n : Nat} {bytes : Bytes} :
    u.take n = .ok (bytes, v) ↔ bytes.length = n ∧ u.Took bytes v := by
  obtain ⟨offset, all⟩ := u
  obtain ⟨offset', rest⟩ := v
  simp only [take]
  split
  · rename_i hn
    simp only [Except.ok.injEq, Prod.mk.injEq, mk.injEq]
    constructor
    · rintro ⟨rfl, rfl, rfl⟩
      exact ⟨hn, (List.take_append_drop n all).symm, by rw [hn]⟩
    · rintro ⟨hl, hb, ho⟩
      simp only at hb ho
      subst hb
      rw [← hl]
      exact ⟨List.take_left, ho.symm, List.drop_left⟩
  · rename_i hn
    simp only [reduceCtorEq, false_iff]
    rintro ⟨hl, hb, -⟩
    simp only at hb
    rw [hb, ← hl, List.take_left] at hn
    exact hn rfl

/-! ## Several items -/

section Items

variable {α : Type} {read : Unread → Except FormatError (α × Unread)}
  {write : α → Except FormatError Bytes}
  (h : ∀ u x v, read u = .ok (x, v) ↔ ∃ bs, write x = .ok bs ∧ u.Took bs v)
include h

/-- Items are read from the bytes of one after the other. -/
theorem manyFrom_eq_ok_iff {done xs : List α} {n : Nat} {u v : Unread} :
    manyFrom read done n u = .ok (xs, v) ↔ ∃ ys, xs = done.reverse ++ ys ∧ ys.length = n ∧
      ∃ bss, ys.mapM write = .ok bss ∧ u.Took bss.flatten v := by
  induction n generalizing done u with
  | zero =>
    simp only [manyFrom, Except.ok.injEq, Prod.mk.injEq, List.length_eq_zero_iff]
    constructor
    · rintro ⟨rfl, rfl⟩
      exact ⟨[], by simp, rfl, [], rfl, took_nil.2 rfl⟩
    · rintro ⟨ys, rfl, rfl, bss, hm, ht⟩
      rw [List.mapM_nil, pure_eq_ok_iff] at hm
      rw [hm] at ht
      exact ⟨by simp, (took_nil.1 ht).symm⟩
  | succ n ih =>
    unfold manyFrom
    constructor
    · intro hread
      split at hread
      · rename_i x u' hx
        obtain ⟨bs, hw, ht⟩ := (h _ _ _).1 hx
        obtain ⟨ys, rfl, rfl, bss, hm, ht'⟩ := ih.1 hread
        refine ⟨x :: ys, by simp, rfl, bs :: bss, ?_, took_append.2 ⟨u', ht, ht'⟩⟩
        rw [List.mapM_cons, hw, hm]
        rfl
      · cases hread
    · rintro ⟨ys, rfl, hl, bss, hm, ht⟩
      obtain ⟨x, ys, rfl⟩ := List.exists_cons_of_length_eq_add_one hl
      rw [List.mapM_cons, bind_eq_ok_iff] at hm
      obtain ⟨bs, hw, hm⟩ := hm
      rw [bind_eq_ok_iff] at hm
      obtain ⟨bss, hm, he⟩ := hm
      rw [pure_eq_ok_iff] at he
      rw [he, List.flatten_cons, took_append] at ht
      obtain ⟨u', ht, ht'⟩ := ht
      rw [(h _ _ _).2 ⟨bs, hw, ht⟩]
      exact ih.2 ⟨ys, by simp, Nat.succ.inj hl, bss, hm, ht'⟩

theorem many_eq_ok_iff {n : Nat} {xs : List α} {u v : Unread} :
    u.many read n = .ok (xs, v) ↔
      xs.length = n ∧ ∃ bss, xs.mapM write = .ok bss ∧ u.Took bss.flatten v := by
  unfold many
  rw [manyFrom_eq_ok_iff h]
  simp

end Items

end Unread

/-! ## What a writer makes -/

namespace SymbolTable

theorem encodeCount_eq_ok_iff {sec : SymbolSection} {n : Nat} {bytes : Bytes} :
    encodeCount sec n = .ok bytes ↔
      n < UInt16.size ∧ bytes = Word.toBytes (UInt16.ofNat n) := by
  unfold encodeCount
  split
  · rename_i h
    simp [h, eq_comm]
  · rename_i h
    simp [h]

theorem mapM_word_eq_ok_iff {ws : List UInt16} {bss : List Bytes} :
    ws.mapM (fun w => (.ok (Word.toBytes w) : Except FormatError Bytes)) = .ok bss ↔
      bss = ws.map Word.toBytes := by
  induction ws generalizing bss with
  | nil => rw [List.mapM_nil, pure_eq_ok_iff, List.map_nil]
  | cons w ws ih =>
    rw [List.mapM_cons, bind_eq_ok_iff]
    simp only [Except.ok.injEq, exists_eq_left', bind_eq_ok_iff, ih, pure_eq_ok_iff, List.map_cons,
      exists_eq_left]

/-- The bytes of an array, one after the other. -/
theorem toList_byteArray (b : ByteArray) : b.toList = b.data.toList := by
  have hloop : ∀ n i r, b.size - i = n → ByteArray.toList.loop b i r =
      r.reverse ++ b.data.toList.drop i := by
    intro n
    induction n with
    | zero =>
      intro i r hi
      rw [ByteArray.toList.loop, if_neg (by omega), List.drop_eq_nil_of_le]
      · rw [List.append_nil]
      · rw [Array.length_toList, ByteArray.size_data]
        omega
    | succ n ih =>
      intro i r hi
      rw [ByteArray.toList.loop, if_pos (by omega), ih (i + 1) _ (by omega)]
      have hlt : i < b.data.size := by
        rw [ByteArray.size_data]
        omega
      rw [List.drop_eq_getElem_cons (i := i) (by rwa [Array.length_toList])]
      simp [ByteArray.get!, getElem!_pos b.data i hlt]
  exact hloop _ 0 [] rfl

end SymbolTable

/-! ## The sections of a table -/

namespace Unread

theorem words_eq_ok_iff {u v : Unread} {ws : List UInt16} (sec : SymbolSection) :
    u.words = .ok (ws, v) ↔
      ∃ bs, SymbolTable.encodeWords sec ws = .ok bs ∧ u.Took bs v := by
  have hword : ∀ (u : Unread) (w : UInt16) (v : Unread), u.word = .ok (w, v) ↔
      ∃ bs, (.ok (Word.toBytes w) : Except FormatError Bytes) = .ok bs ∧ u.Took bs v := by
    intro u w v
    simp [word_eq_ok_iff]
  unfold words SymbolTable.encodeWords
  simp only [bind_eq_ok_iff, Prod.exists, word_eq_ok_iff, many_eq_ok_iff hword, map_eq_ok_iff,
    SymbolTable.encodeCount_eq_ok_iff, SymbolTable.mapM_word_eq_ok_iff]
  constructor
  · rintro ⟨n, u', ht, hl, bss, rfl, ht'⟩
    have hn : UInt16.ofNat ws.length = n := by rw [hl, UInt16.ofNat_toNat]
    refine ⟨_, ⟨_, ⟨hl ▸ n.toNat_lt_size, rfl⟩, rfl⟩, took_append.2 ⟨u', ?_, ?_⟩⟩
    · rwa [hn]
    · rwa [List.flatMap_def]
  · rintro ⟨bs, ⟨cs, ⟨hl, rfl⟩, rfl⟩, ht⟩
    obtain ⟨u', ht, ht'⟩ := took_append.1 ht
    refine ⟨_, u', ht, (UInt16.toNat_ofNat_of_lt' hl).symm, _, rfl, ?_⟩
    rwa [List.flatMap_def] at ht'

theorem ofFlag?_eq_some_iff {flag : UInt8} {mode : SymbolMode} :
    SymbolMode.ofFlag? flag = some mode ↔ flag = mode.flag := by
  unfold SymbolMode.ofFlag? SymbolMode.flag
  cases mode <;> grind

theorem header_eq_ok_iff {u v : Unread} {mode : SymbolMode} :
    u.header = .ok (mode, v) ↔ u.Took (SymbolTable.header mode) v := by
  unfold header SymbolTable.header
  rw [show [SymbolTable.version, mode.flag] = [SymbolTable.version] ++ [mode.flag] from rfl]
  simp only [bind_eq_ok_iff, Prod.exists, word_eq_ok_iff, byte_eq_ok_iff, check_eq_ok_iff,
    took_append, ne_eq, Decidable.not_not]
  constructor
  · rintro ⟨_, u₁, h₁, rfl, _, u₂, h₂, rfl, flag, u₃, h₃, hm⟩
    split at hm
    · rename_i found hf
      cases hm
      rw [ofFlag?_eq_some_iff.1 hf] at h₃
      exact ⟨u₁, h₁, u₂, h₂, h₃⟩
    · cases hm
  · rintro ⟨u₁, h₁, u₂, h₂, h₃⟩
    refine ⟨_, u₁, h₁, rfl, _, u₂, h₂, rfl, _, v, h₃, ?_⟩
    rw [ofFlag?_eq_some_iff.2 rfl]
    rfl

theorem count_eq_ok_iff {u v : Unread} {sec : SymbolSection} {n : Nat} :
    u.count sec n = .ok v ↔ ∃ bs, SymbolTable.encodeCount sec n = .ok bs ∧ u.Took bs v := by
  unfold count
  simp only [bind_eq_ok_iff, Prod.exists, word_eq_ok_iff, check_eq_ok_iff, ne_eq,
    Decidable.not_not, pure_eq_ok_iff, SymbolTable.encodeCount_eq_ok_iff]
  constructor
  · rintro ⟨found, _, h, rfl, rfl⟩
    exact ⟨_, ⟨found.toNat_lt_size, rfl⟩, by rwa [UInt16.ofNat_toNat]⟩
  · rintro ⟨_, ⟨hn, rfl⟩, h⟩
    exact ⟨_, v, h, UInt16.toNat_ofNat_of_lt' hn, rfl⟩

theorem reserved_eq_ok_iff {u v : Unread} {sec : SymbolSection} :
    u.reserved sec = .ok v ↔ u.Took [0, 0] v := by
  unfold reserved
  simp only [bind_eq_ok_iff, Prod.exists, word_eq_ok_iff, check_eq_ok_iff, ne_eq,
    Decidable.not_not, pure_eq_ok_iff]
  constructor
  · rintro ⟨_, _, h, rfl, rfl⟩
    exact h
  · intro h
    exact ⟨0, v, h, rfl, rfl⟩

theorem fromUTF8?_eq_some_iff {bytes : Bytes} {s : String} :
    String.fromUTF8? ⟨bytes.toArray⟩ = some s ↔ bytes = s.toUTF8.toList := by
  rw [SymbolTable.toList_byteArray]
  unfold String.fromUTF8?
  split
  · rename_i hvalid
    rw [Option.some.injEq, ← String.toByteArray_inj, ByteArray.ext_iff, ← Array.toList_inj]
    rfl
  · rename_i hvalid
    simp only [reduceCtorEq, false_iff]
    intro hb
    apply hvalid
    rw [hb]
    exact s.isValidUTF8

theorem name_eq_ok_iff {u v : Unread} {index : Nat} {s : String} :
    u.name index = .ok (s, v) ↔ ∃ bs, SymbolTable.encodeName s = .ok bs ∧ u.Took bs v := by
  have hsize : s.toUTF8.toList.length = s.utf8ByteSize := by
    rw [SymbolTable.toList_byteArray, Array.length_toList]
    rfl
  unfold name SymbolTable.encodeName
  simp only [bind_eq_ok_iff, Prod.exists, word_eq_ok_iff, take_eq_ok_iff, map_eq_ok_iff,
    SymbolTable.encodeCount_eq_ok_iff]
  constructor
  · rintro ⟨n, u₁, h₁, bytes, u₂, ⟨hl, h₂⟩, hs⟩
    split at hs
    · rename_i s' hf
      cases hs
      rw [fromUTF8?_eq_some_iff.1 hf, hsize] at hl
      rw [fromUTF8?_eq_some_iff.1 hf] at h₂
      have hn : UInt16.ofNat s.utf8ByteSize = n := by rw [hl, UInt16.ofNat_toNat]
      refine ⟨_, ⟨_, ⟨hl ▸ n.toNat_lt_size, rfl⟩, rfl⟩, took_append.2 ⟨u₁, ?_, h₂⟩⟩
      rwa [hn]
    · cases hs
  · rintro ⟨_, ⟨_, ⟨hl, rfl⟩, rfl⟩, h⟩
    obtain ⟨u₁, h₁, h₂⟩ := took_append.1 h
    refine ⟨_, u₁, h₁, _, v, ⟨?_, h₂⟩, ?_⟩
    · rw [hsize, UInt16.toNat_ofNat_of_lt' hl]
    · rw [fromUTF8?_eq_some_iff.2 rfl]
      rfl

/-- Whether a name can be read does not depend on the number of its label. -/
theorem namesFrom_eq_ok_iff {done names : List String} {index n : Nat} {u v : Unread} :
    u.namesFrom done index n = .ok (names, v) ↔
      manyFrom (name 0) done n u = .ok (names, v) := by
  induction n generalizing done index u with
  | zero => rfl
  | succ n ih =>
    unfold namesFrom manyFrom
    cases h : u.name index with
    | ok r =>
      obtain ⟨s, u'⟩ := r
      rw [name_eq_ok_iff.2 (name_eq_ok_iff.1 h)]
      exact ih
    | error e =>
      cases h' : u.name 0 with
      | ok r =>
        rw [name_eq_ok_iff.2 (name_eq_ok_iff.1 h')] at h
        cases h
      | error e' => simp

theorem names_eq_ok_iff {u v : Unread} {t : SymbolTable} :
    u.names t.mode t.size = .ok (t.names, v) ↔
      (t.mode = .release → t.names = []) ∧ (t.mode = .debug → t.names.length = t.size) ∧
        ∃ bs, t.encodeNames = .ok bs ∧ u.Took bs v := by
  unfold names SymbolTable.encodeNames
  cases hm : t.mode with
  | release => simp [took_nil, eq_comm]
  | debug =>
    have hname : ∀ u s v, name 0 u = .ok (s, v) ↔
        ∃ bs, SymbolTable.encodeName s = .ok bs ∧ u.Took bs v := fun u s v => name_eq_ok_iff
    simp only [bind_eq_ok_iff, count_eq_ok_iff, namesFrom_eq_ok_iff, manyFrom_eq_ok_iff hname,
      pure_eq_ok_iff]
    constructor
    · rintro ⟨u', ⟨bs, hc, h₁⟩, names, hnames, hl, bss, hw, h₂⟩
      rw [List.reverse_nil, List.nil_append] at hnames
      rw [← hnames] at hl hw
      exact ⟨by simp, fun _ => hl, _, ⟨bs, hc, bss, hw, rfl⟩, took_append.2 ⟨u', h₁, h₂⟩⟩
    · rintro ⟨-, hl, _, ⟨bs, hc, bss, hw, rfl⟩, h⟩
      obtain ⟨u', h₁, h₂⟩ := took_append.1 h
      exact ⟨u', ⟨bs, hc, h₁⟩, t.names, rfl, hl trivial, bss, hw, h₂⟩

end Unread

/-! ## Tables -/

namespace SymbolTable

/-- The lists of a table belong together: they are equally long, but a release table has
no names. -/
structure WellFormed (t : SymbolTable) : Prop where
  references_length : t.references.length = t.size
  names_length : t.mode = .debug → t.names.length = t.size
  names_eq_nil : t.mode = .release → t.names = []

theorem checkCounts_eq_ok_iff {t : SymbolTable} {x : Unit} : t.checkCounts = .ok x ↔
    t.references.length = t.size ∧ (t.mode = .debug → t.names.length = t.size) := by
  unfold checkCounts
  split
  · rename_i h
    simp [h]
  · rename_i h
    split
    · rename_i hm
      simp [hm]
    · rename_i hm
      simp only [true_iff]
      refine ⟨Decidable.not_not.1 h, fun hd => ?_⟩
      exact Decidable.not_not.1 fun hl => hm ⟨hd, hl⟩

end SymbolTable

/-- A table is taken from just the bytes that are written for it. -/
theorem Unread.table_eq_ok_iff {u v : Unread} {t : SymbolTable} :
    u.table = .ok (t, v) ↔
      (t.mode = .release → t.names = []) ∧ ∃ bytes, t.encode = .ok bytes ∧ u.Took bytes v := by
  have hwords : ∀ u ws v, words u = .ok (ws, v) ↔
      ∃ bs, SymbolTable.encodeWords .references ws = .ok bs ∧ u.Took bs v :=
    fun u ws v => words_eq_ok_iff .references
  have hreserved : SymbolTable.reserved = [0, 0] ++ [0, 0] ++ [0, 0] := rfl
  unfold table SymbolTable.encode
  simp only [bind_eq_ok_iff, Prod.exists, header_eq_ok_iff, words_eq_ok_iff .defines,
    count_eq_ok_iff, many_eq_ok_iff hwords, reserved_eq_ok_iff, pure_eq_ok_iff,
    SymbolTable.checkCounts_eq_ok_iff, hreserved]
  constructor
  · rintro ⟨mode, u₁, h₁, defines, u₂, ⟨ds, hds, h₂⟩, u₃, ⟨cs, hcs, h₃⟩, references, u₄,
      ⟨hlen, rs, hrs, h₄⟩, u₅, h₅, u₆, h₆, u₇, h₇, names, u₈, hn, he⟩
    cases he
    have hnames := (names_eq_ok_iff (t := ⟨mode, defines, references, names⟩)).1 hn
    obtain ⟨hnone, hall, ns, hns, h₈⟩ := hnames
    refine ⟨hnone, _, ⟨(), ⟨hlen, hall⟩, ds, hds, cs, hcs, rs, hrs, ns, hns, rfl⟩, ?_⟩
    simp only [took_append]
    exact ⟨u₇, ⟨u₄, ⟨u₃, ⟨u₂, ⟨u₁, h₁, h₂⟩, h₃⟩, h₄⟩, u₆, ⟨u₅, h₅, h₆⟩, h₇⟩, h₈⟩
  · rintro ⟨hnone, _, ⟨-, ⟨hlen, hall⟩, ds, hds, cs, hcs, rs, hrs, ns, hns, rfl⟩, h⟩
    simp only [took_append] at h
    obtain ⟨u₇, ⟨u₄, ⟨u₃, ⟨u₂, ⟨u₁, h₁, h₂⟩, h₃⟩, h₄⟩, u₆, ⟨u₅, h₅, h₆⟩, h₇⟩, h₈⟩ := h
    have hn := names_eq_ok_iff.2 ⟨hnone, hall, ns, hns, h₈⟩
    exact ⟨t.mode, u₁, h₁, t.defines, u₂, ⟨ds, hds, h₂⟩, u₃, ⟨cs, hcs, h₃⟩, t.references, u₄,
      ⟨hlen, rs, hrs, h₄⟩, u₅, h₅, u₆, h₆, u₇, h₇, t.names, v, hn, rfl⟩

namespace SymbolTable

theorem WellFormed.of_encode {t : SymbolTable} {bytes : Bytes} (h : t.encode = .ok bytes)
    (hn : t.mode = .release → t.names = []) : t.WellFormed := by
  unfold encode at h
  rw [bind_eq_ok_iff] at h
  obtain ⟨_, hc, -⟩ := h
  obtain ⟨hr, hd⟩ := checkCounts_eq_ok_iff.1 hc
  exact ⟨hr, hd, hn⟩

theorem decode_eq_ok_iff {bytes : Bytes} {t : SymbolTable} :
    decode bytes = .ok t ↔ (t.mode = .release → t.names = []) ∧ t.encode = .ok bytes := by
  unfold decode
  simp only [bind_eq_ok_iff, Prod.exists, Unread.table_eq_ok_iff]
  constructor
  · rintro ⟨t', v, ⟨hn, bs, he, hb, -⟩, h⟩
    split at h
    · rename_i hv
      cases h
      rw [List.isEmpty_iff.1 hv, List.append_nil] at hb
      simp only at hb
      rw [hb]
      exact ⟨hn, he⟩
    · cases h
  · rintro ⟨hn, he⟩
    refine ⟨t, ⟨bytes.length, []⟩, ⟨hn, bytes, he, ?_, ?_⟩, rfl⟩
    · exact (List.append_nil bytes).symm
    · exact (Nat.zero_add _).symm

end SymbolTable

/-- Reading and writing symbol tables are inverse to each other: a row of bytes is read as
a table exactly if it is what is written for the table. No other tables are read than
those that can be built. -/
theorem a_table_is_read_from_just_its_bytes (bytes : Bytes) (t : SymbolTable) :
    ((t.mode = .release → t.names = []) →
      (SymbolTable.decode bytes = .ok t ↔ t.encode = .ok bytes)) ∧
    (SymbolTable.decode bytes = .ok t → t.WellFormed) := by
  constructor
  · intro hn
    rw [SymbolTable.decode_eq_ok_iff]
    exact and_iff_right hn
  · intro h
    obtain ⟨hn, he⟩ := SymbolTable.decode_eq_ok_iff.1 h
    exact .of_encode he hn

/-- A table with names of one and two bytes, and a label at the address of another one. -/
def twoNames : SymbolTable :=
  ((SymbolTable.empty .debug).push "a" 4 [2, 0x1234]).push "ö" 4 []

theorem the_bytes_of_two_names_are_read_back :
    (twoNames.mode = .release → twoNames.names = []) ∧
      SymbolTable.decode [0xAB, 0xEF, 1, 2, 0, 2, 0, 4, 0, 4, 0, 2, 0, 2, 0, 2, 0x12, 0x34, 0, 0,
        0, 0, 0, 0, 0, 0, 0, 2, 0, 1, 0x61, 0, 2, 0xC3, 0xB6] = .ok twoNames ∧
      twoNames.WellFormed := by
  have hn : twoNames.mode = .release → twoNames.names = [] := by
    intro hm
    cases hm
  have hw : twoNames.encode.toOption = some [0xAB, 0xEF, 1, 2, 0, 2, 0, 4, 0, 4, 0, 2, 0, 2, 0, 2,
      0x12, 0x34, 0, 0, 0, 0, 0, 0, 0, 0, 0, 2, 0, 1, 0x61, 0, 2, 0xC3, 0xB6] := by
    decide +kernel
  have hr := ((a_table_is_read_from_just_its_bytes _ twoNames).1 hn).2 (toOption_eq_some_iff.1 hw)
  exact ⟨hn, hr, (a_table_is_read_from_just_its_bytes _ twoNames).2 hr⟩

end WordMachine
