-- Symbol tables that are cut off, and ones with more bytes behind them. An encoded table is a
-- row of fields, and each reader takes just the fields that the writer of its part makes. So
-- from a table that is cut off it takes those that are whole, and stops at the next one.
import Mathlib.Data.List.Basic
import WordMachine.Proofs.TableLimits

namespace WordMachine

/-! ## Fields -/

/-- A field of an encoded table, which is read in one piece. -/
inductive TableField
  | byte (b : UInt8)
  | word (w : UInt16)
  /-- The name of a label, without the length before it. -/
  | nameBody (name : String)
  deriving DecidableEq, Repr

namespace TableField

/-- The bytes of a field. -/
def bytes : TableField → Bytes
  | byte b => [b]
  | word w => Word.toBytes w
  | nameBody name => name.toUTF8.toList

/-- The bytes of fields, one after the other. -/
def bytesOf (fs : List TableField) : Bytes := fs.flatMap bytes

@[simp] theorem bytesOf_append (fs gs : List TableField) :
    bytesOf (fs ++ gs) = bytesOf fs ++ bytesOf gs := List.flatMap_append

@[simp] theorem bytesOf_singleton (f : TableField) : bytesOf [f] = f.bytes := by simp [bytesOf]

/-- Of the fields, the first one that `n` bytes do not contain completely starts at the offset. -/
def CutAt (fs : List TableField) (n offset : Nat) : Prop :=
  ∃ before f after, fs = before ++ f :: after ∧ (bytesOf before).length = offset ∧
    offset ≤ n ∧ n < offset + f.bytes.length

theorem cutAt_singleton {f : TableField} {n : Nat} (h : n < f.bytes.length) : CutAt [f] n 0 :=
  ⟨[], f, [], rfl, rfl, Nat.zero_le n, by omega⟩

theorem CutAt.append_right {fs : List TableField} {n offset : Nat} (h : CutAt fs n offset)
    (gs : List TableField) : CutAt (fs ++ gs) n offset := by
  obtain ⟨before, f, after, rfl, hb, hle, hlt⟩ := h
  exact ⟨before, f, after ++ gs, by simp, hb, hle, hlt⟩

theorem CutAt.append_left {gs : List TableField} {n offset : Nat} (h : CutAt gs n offset)
    (fs : List TableField) :
    CutAt (fs ++ gs) ((bytesOf fs).length + n) ((bytesOf fs).length + offset) := by
  obtain ⟨before, f, after, rfl, hb, hle, hlt⟩ := h
  refine ⟨fs ++ before, f, after, by simp, ?_, by omega, by omega⟩
  rw [bytesOf_append, List.length_append, hb]

/-- A list of words behind its length. -/
def ofWords (ws : List UInt16) : List TableField := word (UInt16.ofNat ws.length) :: ws.map word

/-- A name behind its length. -/
def ofName (name : String) : List TableField :=
  [word (UInt16.ofNat name.utf8ByteSize), nameBody name]

/-- The magic word, the version and the mode. -/
def ofHeader (mode : SymbolMode) : List TableField :=
  [word SymbolTable.magic, byte SymbolTable.version, byte mode.flag]

/-- The section of the names, which only debug tables have. -/
def ofNames (mode : SymbolMode) (names : List String) : List TableField :=
  match mode with
  | .release => []
  | .debug => word (UInt16.ofNat names.length) :: names.flatMap ofName

end TableField

/-- The fields of an encoded table. -/
def SymbolTable.fields (t : SymbolTable) : List TableField :=
  TableField.ofHeader t.mode ++ (TableField.ofWords t.defines ++ (.word (UInt16.ofNat t.size) ::
    (t.references.flatMap TableField.ofWords ++
      (.word 0 :: .word 0 :: .word 0 :: TableField.ofNames t.mode t.names))))

/-! ## Readers and fields -/

namespace Unread

open TableField (bytesOf CutAt)

/-- A reader takes just the fields, whatever stands behind them, and gives the result. If they
are cut off, it stops at the first field that is not there completely. -/
structure Expects {β : Type} (read : Unread → Except FormatError β) (fs : List TableField)
    (result : Unread → β) : Prop where
  whole : ∀ u v, u.Took (bytesOf fs) v → read u = .ok (result v)
  cut : ∀ u, u.bytes <+: bytesOf fs → u.bytes.length < (bytesOf fs).length →
    ∃ offset, CutAt fs u.bytes.length offset ∧ read u = .error (.truncated (u.offset + offset))

variable {β γ : Type}

theorem expects_pure (result : Unread → β) : Expects (fun v => .ok (result v)) [] result := by
  refine ⟨fun u v ht => ?_, fun u _ hlt => absurd hlt (Nat.not_lt_zero _)⟩
  rw [took_nil.1 ht]

/-- A reader of one field fails where it starts. -/
theorem expects_field {read : Unread → Except FormatError β} {f : TableField}
    {result : Unread → β} (hw : ∀ u v, u.Took f.bytes v → read u = .ok (result v))
    (hc : ∀ u, u.bytes.length < f.bytes.length → read u = .error (.truncated u.offset)) :
    Expects read [f] result := by
  refine ⟨fun u v ht => ?_, fun u _ hlt => ?_⟩
  · rw [TableField.bytesOf_singleton] at ht
    exact hw u v ht
  · rw [TableField.bytesOf_singleton] at hlt
    exact ⟨0, TableField.cutAt_singleton hlt, hc u hlt⟩

/-- Of two readers the first one takes its fields and leaves those of the second one. -/
theorem Expects.bind {read : Unread → Except FormatError β} {fs gs : List TableField}
    {result : Unread → β} {next : β → Except FormatError γ} {result' : Unread → γ}
    (h : Expects read fs result) (hn : Expects (fun v => next (result v)) gs result') :
    Expects (fun u => read u >>= next) (fs ++ gs) result' := by
  refine ⟨fun u w ht => ?_, fun u hp hlt => ?_⟩
  · rw [TableField.bytesOf_append] at ht
    obtain ⟨v, hv, hw⟩ := took_append.1 ht
    rw [h.whole u v hv]
    exact hn.whole v w hw
  · rw [TableField.bytesOf_append] at hp hlt
    by_cases hfs : u.bytes.length < (bytesOf fs).length
    · obtain ⟨offset, hcut, herr⟩ :=
        h.cut u (List.prefix_of_prefix_length_le hp (List.prefix_append _ _) (Nat.le_of_lt hfs)) hfs
      exact ⟨offset, hcut.append_right gs, by rw [herr]; rfl⟩
    · -- The cut is behind the fields of the first reader.
      obtain ⟨rest, hrest⟩ :=
        List.prefix_of_prefix_length_le (List.prefix_append _ _) hp (Nat.not_lt.1 hfs)
      rw [← hrest, List.prefix_append_right_inj] at hp
      rw [← hrest, List.length_append, List.length_append] at hlt
      have ht : u.Took (bytesOf fs) ⟨u.offset + (bytesOf fs).length, rest⟩ := ⟨hrest.symm, rfl⟩
      obtain ⟨offset, hcut, herr⟩ :=
        hn.cut ⟨u.offset + (bytesOf fs).length, rest⟩ hp (by simp only; omega)
      refine ⟨(bytesOf fs).length + offset, ?_, ?_⟩
      · rw [← hrest, List.length_append]
        exact hcut.append_left fs
      · rw [h.whole _ _ ht, ← Nat.add_assoc]
        exact herr

/-- Nothing is read behind the fields of a last reader. -/
theorem Expects.last {read : Unread → Except FormatError β} {fs : List TableField}
    {result : Unread → β} {next : β → Except FormatError γ} {result' : Unread → γ}
    (h : Expects read fs result) (hn : ∀ v, next (result v) = .ok (result' v)) :
    Expects (fun u => read u >>= next) fs result' := by
  have hnil : Expects (fun v => next (result v)) [] result' := by
    simp only [hn]
    exact expects_pure result'
  rw [← List.append_nil fs]
  exact h.bind hnil

theorem expects_byte (b : UInt8) : Expects byte [.byte b] (b, ·) := by
  refine expects_field (fun u v ht => byte_eq_ok_iff.2 ht) fun u hlt => ?_
  rcases u with ⟨offset, _ | ⟨c, cs⟩⟩
  · rfl
  · simp [TableField.bytes] at hlt

theorem expects_word (w : UInt16) : Expects word [.word w] (w, ·) := by
  refine expects_field (fun u v ht => word_eq_ok_iff.2 ht) fun u hlt => ?_
  rcases u with ⟨offset, _ | ⟨b, _ | ⟨c, cs⟩⟩⟩
  · rfl
  · rfl
  · simp only [TableField.bytes, Word.length_toBytes, List.length_cons] at hlt
    omega

theorem expects_take (name : String) : Expects (take name.utf8ByteSize) [.nameBody name]
    (name.toUTF8.toList, ·) := by
  have hsize : name.toUTF8.toList.length = name.utf8ByteSize := by
    rw [SymbolTable.toList_byteArray, Array.length_toList]
    rfl
  refine expects_field (fun u v ht => take_eq_ok_iff.2 ⟨hsize, ht⟩) fun u hlt => ?_
  have hlt : u.bytes.length < name.utf8ByteSize := hsize ▸ hlt
  unfold take
  rw [if_neg]
  rw [List.length_take]
  omega

/-! ## Several items -/

theorem manyFrom_succ {read : Unread → Except FormatError (β × Unread)} (done : List β) (n : Nat)
    (u : Unread) : manyFrom read done (n + 1) u =
      read u >>= fun r => manyFrom read (r.1 :: done) n r.2 := by
  rw [manyFrom]
  cases read u <;> rfl

theorem namesFrom_succ (done : List String) (index n : Nat) (u : Unread) :
    u.namesFrom done index (n + 1) =
      u.name index >>= fun r => r.2.namesFrom (r.1 :: done) (index + 1) n := by
  rw [namesFrom]
  cases u.name index <;> rfl

/-- One item after the other, each with its fields. -/
theorem expects_manyFrom {read : Unread → Except FormatError (β × Unread)}
    {fields : β → List TableField} {xs : List β}
    (h : ∀ x ∈ xs, Expects read (fields x) (x, ·)) (done : List β) :
    Expects (manyFrom read done xs.length) (xs.flatMap fields) (done.reverse ++ xs, ·) := by
  induction xs generalizing done with
  | nil =>
    simp only [List.append_nil]
    exact expects_pure (done.reverse, ·)
  | cons x xs ih =>
    have hstep : manyFrom read done (x :: xs).length = fun u => read u >>= fun r =>
        manyFrom read (r.1 :: done) xs.length r.2 := funext fun u => manyFrom_succ done _ u
    have hrest := ih (fun y hy => h y (List.mem_cons_of_mem x hy)) (x :: done)
    rw [List.reverse_cons, List.append_assoc] at hrest
    rw [hstep]
    exact (h x List.mem_cons_self).bind hrest

theorem expects_words {ws : List UInt16} (h : ws.length < UInt16.size) :
    Expects words (TableField.ofWords ws) (ws, ·) := by
  have hmany : Expects (manyFrom word [] ws.length) (ws.flatMap fun w => [.word w]) (ws, ·) :=
    expects_manyFrom (fun w _ => expects_word w) []
  rw [← List.map_eq_flatMap] at hmany
  refine (expects_word (UInt16.ofNat ws.length)).bind ?_
  simp only [UInt16.toNat_ofNat_of_lt' h]
  exact hmany

theorem expects_name (index : Nat) {s : String} (h : s.utf8ByteSize < UInt16.size) :
    Expects (name index) (TableField.ofName s) (s, ·) := by
  refine (expects_word (UInt16.ofNat s.utf8ByteSize)).bind ?_
  simp only [UInt16.toNat_ofNat_of_lt' h]
  refine (expects_take s).last fun v => ?_
  simp only [fromUTF8?_eq_some_iff.2 rfl]
  rfl

theorem expects_namesFrom {names : List String}
    (h : ∀ s ∈ names, s.utf8ByteSize < UInt16.size) (done : List String) (index : Nat) :
    Expects (namesFrom done index names.length) (names.flatMap TableField.ofName)
      (done.reverse ++ names, ·) := by
  induction names generalizing done index with
  | nil =>
    simp only [List.append_nil]
    exact expects_pure (done.reverse, ·)
  | cons s names ih =>
    have hstep : namesFrom done index (s :: names).length = fun u => u.name index >>= fun r =>
        r.2.namesFrom (r.1 :: done) (index + 1) names.length :=
      funext fun u => namesFrom_succ done index _ u
    have hrest := ih (fun y hy => h y (List.mem_cons_of_mem s hy)) (s :: done) (index + 1)
    rw [List.reverse_cons, List.append_assoc] at hrest
    rw [hstep]
    exact (expects_name index (h s List.mem_cons_self)).bind hrest

/-! ## Sections -/

theorem expects_header (mode : SymbolMode) :
    Expects header (TableField.ofHeader mode) (mode, ·) := by
  refine (expects_word SymbolTable.magic).bind ?_
  simp only [ne_eq, not_true_eq_false, if_false]
  refine (expects_byte SymbolTable.version).bind ?_
  simp only [not_true_eq_false, if_false]
  refine (expects_byte mode.flag).last fun v => ?_
  simp only [ofFlag?_eq_some_iff.2 rfl]
  rfl

theorem expects_count (sec : SymbolSection) {n : Nat} (h : n < UInt16.size) :
    Expects (fun u => u.count sec n) [.word (UInt16.ofNat n)] id := by
  refine (expects_word (UInt16.ofNat n)).last fun v => ?_
  simp only [UInt16.toNat_ofNat_of_lt' h, ne_eq, not_true_eq_false, if_false]
  rfl

theorem expects_reserved (sec : SymbolSection) :
    Expects (fun u => u.reserved sec) [.word 0] id := by
  refine (expects_word 0).last fun v => ?_
  simp only [ne_eq, not_true_eq_false, if_false]
  rfl

theorem expects_names {t : SymbolTable} (h : t.Fits) (hw : t.WellFormed) :
    Expects (fun u => u.names t.mode t.size) (TableField.ofNames t.mode t.names) (t.names, ·) := by
  cases hm : t.mode with
  | release =>
    rw [hw.names_eq_nil hm]
    exact expects_pure ([], ·)
  | debug =>
    have hl := hw.names_length hm
    have hnames := expects_namesFrom (h.names_lt hm) [] 0
    rw [hl] at hnames
    unfold TableField.ofNames
    simp only [hl]
    exact (expects_count .names h.size_lt).bind hnames

/-- The reader of tables takes just the fields of the table. -/
theorem expects_table {t : SymbolTable} (h : t.Fits) (hw : t.WellFormed) :
    Expects table t.fields (t, ·) := by
  have hreferences : Expects (manyFrom words [] t.references.length)
      (t.references.flatMap TableField.ofWords) (t.references, ·) :=
    expects_manyFrom (fun ws hm => expects_words (h.references_lt ws hm)) []
  rw [hw.references_length] at hreferences
  refine (expects_header t.mode).bind ?_
  refine (expects_words h.size_lt).bind ?_
  refine (expects_count .references h.size_lt).bind ?_
  refine hreferences.bind ?_
  refine (expects_reserved .externalSymbols).bind ?_
  refine (expects_reserved .publicSymbols).bind ?_
  refine (expects_reserved .extraDelta).bind ?_
  exact (expects_names h hw).last fun v => rfl

/-! ## Bytes behind a table -/

/-- The reader of a table does not look at what stands behind it: whatever goes wrong, it is
not that there are more bytes. -/
def StaysInside (read : Except FormatError β) : Prop := ∀ k, read ≠ .error (.trailingData k)

theorem staysInside_ok (x : β) : StaysInside (.ok x) := fun k h => by cases h

theorem StaysInside.bind {read : Except FormatError β} {next : β → Except FormatError γ}
    (h : StaysInside read) (hn : ∀ x, StaysInside (next x)) : StaysInside (read >>= next) := by
  intro k hk
  rcases bind_eq_error_iff.1 hk with hk | ⟨x, -, hk⟩
  · exact h k hk
  · exact hn x k hk

theorem StaysInside.check {c : Prop} [Decidable c] {e : FormatError}
    {next : PUnit → Except FormatError β} (he : ∀ k, e ≠ .trailingData k)
    (hn : StaysInside (next ())) : StaysInside (if c then throw e >>= next else next ()) := by
  by_cases hc : c
  · intro k hk
    rw [if_pos hc] at hk
    cases hk
    exact he k rfl
  · rw [if_neg hc]
    exact hn

theorem staysInside_byte (u : Unread) : StaysInside u.byte := by
  unfold byte
  split <;> simp [StaysInside]

theorem staysInside_word (u : Unread) : StaysInside u.word := by
  unfold word
  split <;> simp [StaysInside]

theorem staysInside_take (n : Nat) (u : Unread) : StaysInside (u.take n) := by
  unfold take
  simp only
  split <;> simp [StaysInside]

theorem staysInside_manyFrom {read : Unread → Except FormatError (β × Unread)}
    (h : ∀ u, StaysInside (read u)) (done : List β) (n : Nat) (u : Unread) :
    StaysInside (manyFrom read done n u) := by
  induction n generalizing done u with
  | zero => exact staysInside_ok _
  | succ n ih =>
    rw [manyFrom_succ]
    exact (h u).bind fun r => ih _ _

theorem staysInside_words (u : Unread) : StaysInside u.words :=
  (staysInside_word u).bind fun r => staysInside_manyFrom staysInside_word [] r.1.toNat r.2

theorem staysInside_header (u : Unread) : StaysInside u.header := by
  refine (staysInside_word u).bind fun r => .check (fun _ h => by cases h) ?_
  refine (staysInside_byte r.2).bind fun r => .check (fun _ h => by cases h) ?_
  refine (staysInside_byte r.2).bind fun r => ?_
  simp only
  split
  · exact staysInside_ok _
  · exact fun k h => by cases h

theorem staysInside_count (sec : SymbolSection) (n : Nat) (u : Unread) :
    StaysInside (u.count sec n) :=
  (staysInside_word u).bind fun _ => .check (fun _ h => by cases h) (staysInside_ok _)

theorem staysInside_reserved (sec : SymbolSection) (u : Unread) : StaysInside (u.reserved sec) :=
  (staysInside_word u).bind fun _ => .check (fun _ h => by cases h) (staysInside_ok _)

theorem staysInside_name (index : Nat) (u : Unread) : StaysInside (u.name index) := by
  refine (staysInside_word u).bind fun r => (staysInside_take r.1.toNat r.2).bind fun r => ?_
  simp only
  split
  · exact staysInside_ok _
  · exact fun k h => by cases h

theorem staysInside_namesFrom (done : List String) (index n : Nat) (u : Unread) :
    StaysInside (u.namesFrom done index n) := by
  induction n generalizing done index u with
  | zero => exact staysInside_ok _
  | succ n ih =>
    rw [namesFrom_succ]
    exact (staysInside_name index u).bind fun r => ih _ _ _

theorem staysInside_names (mode : SymbolMode) (labels : Nat) (u : Unread) :
    StaysInside (u.names mode labels) := by
  cases mode with
  | release => exact staysInside_ok _
  | debug =>
    exact (staysInside_count .names labels u).bind fun v => staysInside_namesFrom [] 0 labels v

theorem staysInside_table (u : Unread) : StaysInside u.table := by
  refine (staysInside_header u).bind fun r => (staysInside_words r.2).bind fun r => ?_
  refine (staysInside_count .references _ r.2).bind fun v => ?_
  refine (staysInside_manyFrom staysInside_words [] _ v).bind fun r => ?_
  refine (staysInside_reserved .externalSymbols r.2).bind fun v => ?_
  refine (staysInside_reserved .publicSymbols v).bind fun v => ?_
  refine (staysInside_reserved .extraDelta v).bind fun v => ?_
  exact (staysInside_names _ _ v).bind fun _ => staysInside_ok _

end Unread

namespace SymbolTable

/-- A table is refused for what stands behind it just where the table ends. -/
theorem decode_eq_trailingData_iff {bytes : Bytes} {k : Nat} :
    decode bytes = .error (.trailingData k) ↔
      k < bytes.length ∧ ∃ t, decode (bytes.take k) = .ok t := by
  unfold decode
  rw [bind_eq_error_iff]
  refine ⟨?_, ?_⟩
  · rintro (h | ⟨⟨t, v⟩, ht, h⟩)
    · exact absurd h (Unread.staysInside_table _ k)
    · obtain ⟨hn, front, he, hb, ho⟩ := Unread.table_eq_ok_iff.1 ht
      simp only at hb ho h
      split at h
      · cases h
      · rename_i hv
        cases h
        have hpos : 0 < v.bytes.length := by
          rw [List.length_pos_iff, ne_eq, ← List.isEmpty_iff]
          exact hv
        have htake : bytes.take v.offset = front := by
          rw [hb, List.take_left']
          rw [ho, Nat.zero_add]
        refine ⟨?_, t, ?_⟩
        · rw [hb, ho, List.length_append]
          omega
        · rw [htake]
          exact decode_eq_ok_iff.2 ⟨hn, he⟩
  · rintro ⟨hk, t, ht⟩
    obtain ⟨hn, he⟩ := decode_eq_ok_iff.1 ht
    have hlen : (bytes.take k).length = k := List.length_take_of_le (Nat.le_of_lt hk)
    have htook : Unread.Took ⟨0, bytes⟩ (bytes.take k) ⟨k, bytes.drop k⟩ :=
      ⟨(List.take_append_drop k bytes).symm, by simp only [hlen, Nat.zero_add]⟩
    refine .inr ⟨_, Unread.table_eq_ok_iff.2 ⟨hn, _, he, htook⟩, ?_⟩
    simp only
    rw [if_neg]
    · rfl
    · rw [List.isEmpty_iff, List.drop_eq_nil_iff]
      omega

/-! ## Tables that are cut off -/

/-- What is written for a table are its fields. -/
theorem bytes_of_decode {bytes : Bytes} {t : SymbolTable} (h : decode bytes = .ok t) :
    t.WellFormed ∧ t.Fits ∧ bytes = TableField.bytesOf t.fields := by
  obtain ⟨hn, he⟩ := decode_eq_ok_iff.1 h
  have hw := WellFormed.of_encode he hn
  have hf := (exists_encode_iff.1 ⟨bytes, he⟩).2
  have htook : Unread.Took ⟨0, TableField.bytesOf t.fields⟩ (TableField.bytesOf t.fields)
      ⟨(TableField.bytesOf t.fields).length, []⟩ :=
    ⟨(List.append_nil _).symm, (Nat.zero_add _).symm⟩
  obtain ⟨-, written, hwritten, hb, -⟩ :=
    Unread.table_eq_ok_iff.1 ((Unread.expects_table hf hw).whole _ _ htook)
  rw [he] at hwritten
  cases hwritten
  simp only [List.append_nil] at hb
  exact ⟨hw, hf, hb.symm⟩

theorem decode_of_cut {bytes front : Bytes} {t : SymbolTable} (h : decode bytes = .ok t)
    (hp : front <+: bytes) (hlt : front.length < bytes.length) :
    ∃ offset, TableField.CutAt t.fields front.length offset ∧
      decode front = .error (.truncated offset) := by
  obtain ⟨hw, hf, hb⟩ := bytes_of_decode h
  rw [hb] at hp hlt
  obtain ⟨offset, hcut, herr⟩ := (Unread.expects_table hf hw).cut ⟨0, front⟩ hp hlt
  refine ⟨offset, hcut, ?_⟩
  unfold decode
  rw [herr]
  simp only [Nat.zero_add]
  rfl

end SymbolTable

/-- A row of bytes is refused for what stands behind a table just if a table ends before its
last byte. Each proper front of a table is refused where the first field starts that it does
not contain completely, and the fields are those that the table is written with. -/
theorem a_table_is_read_up_to_where_it_ends (bytes : Bytes) :
    (∀ k, SymbolTable.decode bytes = .error (.trailingData k) ↔
      k < bytes.length ∧ ∃ t, SymbolTable.decode (bytes.take k) = .ok t) ∧
    ∀ t, SymbolTable.decode bytes = .ok t → bytes = TableField.bytesOf t.fields ∧
      ∀ front, front <+: bytes → front ≠ bytes →
        ∃ offset ≤ front.length, TableField.CutAt t.fields front.length offset ∧
          SymbolTable.decode front = .error (.truncated offset) := by
  refine ⟨fun k => SymbolTable.decode_eq_trailingData_iff, fun t h => ⟨?_, ?_⟩⟩
  · exact (SymbolTable.bytes_of_decode h).2.2
  · intro front hp hne
    have hlt : front.length < bytes.length := by
      refine Nat.lt_of_le_of_ne hp.length_le fun hlen => hne ?_
      exact hp.eq_of_length hlen
    obtain ⟨offset, hcut, herr⟩ := SymbolTable.decode_of_cut h hp hlt
    obtain ⟨before, f, after, hfs, hb, hle, hn⟩ := hcut
    exact ⟨offset, hle, ⟨before, f, after, hfs, hb, hle, hn⟩, herr⟩

/-- The bytes of `twoNames`. Its last field is a name of two bytes. -/
def twoNamesBytes : Bytes :=
  [0xAB, 0xEF, 1, 2, 0, 2, 0, 4, 0, 4, 0, 2, 0, 2, 0, 2, 0x12, 0x34, 0, 0,
    0, 0, 0, 0, 0, 0, 0, 2, 0, 1, 0x61, 0, 2, 0xC3, 0xB6]

theorem two_names_are_cut_within_the_last_one :
    SymbolTable.decode twoNamesBytes = .ok twoNames ∧
      twoNamesBytes.take 34 <+: twoNamesBytes ∧ twoNamesBytes.take 34 ≠ twoNamesBytes ∧
      TableField.CutAt twoNames.fields 34 33 ∧
      SymbolTable.decode (twoNamesBytes.take 34) = .error (.truncated 33) ∧
      SymbolTable.decode (twoNamesBytes ++ [7, 7]) = .error (.trailingData 35) := by
  have hwhole : SymbolTable.decode twoNamesBytes = .ok twoNames := by decide +kernel
  have hcut : SymbolTable.decode (twoNamesBytes.take 34) = .error (.truncated 33) := by
    decide +kernel
  have hp : twoNamesBytes.take 34 <+: twoNamesBytes := List.take_prefix 34 twoNamesBytes
  have hne : twoNamesBytes.take 34 ≠ twoNamesBytes := by decide
  obtain ⟨offset, -, hfield, herr⟩ :=
    ((a_table_is_read_up_to_where_it_ends twoNamesBytes).2 twoNames hwhole).2 _ hp hne
  rw [hcut] at herr
  cases herr
  refine ⟨hwhole, hp, hne, hfield, hcut, ?_⟩
  exact ((a_table_is_read_up_to_where_it_ends _).1 35).2 ⟨by decide, twoNames, hwhole⟩

end WordMachine
