-- Which symbol tables can be written: the lists have to be equally long, and every length
-- has to fit in a word.
import WordMachine.Proofs.SymbolTables

namespace WordMachine.SymbolTable

/-! ## Lengths -/

/-- Every length that is written with a table fits in a word. -/
structure Fits (t : SymbolTable) : Prop where
  size_lt : t.size < UInt16.size
  references_lt : ∀ sites ∈ t.references, sites.length < UInt16.size
  names_lt : t.mode = .debug → ∀ name ∈ t.names, name.utf8ByteSize < UInt16.size

theorem encodeCount_eq_error_iff {sec : SymbolSection} {n : Nat} {e : FormatError} :
    encodeCount sec n = .error e ↔ UInt16.size ≤ n ∧ e = .tooLarge sec := by
  unfold encodeCount
  by_cases h : n < UInt16.size
  · simp [h, Nat.not_le.2 h]
  · simp [h, Nat.not_lt.1 h, eq_comm]

theorem exists_encodeCount_iff {sec : SymbolSection} {n : Nat} :
    (∃ bytes, encodeCount sec n = .ok bytes) ↔ n < UInt16.size := by
  simp [encodeCount_eq_ok_iff]

theorem exists_encodeWords_iff {sec : SymbolSection} {ws : List UInt16} :
    (∃ bytes, encodeWords sec ws = .ok bytes) ↔ ws.length < UInt16.size := by
  unfold encodeWords
  rw [exists_map_iff, exists_encodeCount_iff]

theorem exists_encodeName_iff {name : String} :
    (∃ bytes, encodeName name = .ok bytes) ↔ name.utf8ByteSize < UInt16.size := by
  unfold encodeName
  rw [exists_map_iff, exists_encodeCount_iff]

theorem encodeWords_eq_error_iff {sec : SymbolSection} {ws : List UInt16} {e : FormatError} :
    encodeWords sec ws = .error e ↔ UInt16.size ≤ ws.length ∧ e = .tooLarge sec := by
  unfold encodeWords
  rw [map_eq_error_iff, encodeCount_eq_error_iff]

theorem encodeName_eq_error_iff {name : String} {e : FormatError} :
    encodeName name = .error e ↔ UInt16.size ≤ name.utf8ByteSize ∧ e = .tooLarge .names := by
  unfold encodeName
  rw [map_eq_error_iff, encodeCount_eq_error_iff]

/-! ## Tables -/

theorem exists_encodeNames_iff {t : SymbolTable} :
    (∃ bytes, t.encodeNames = .ok bytes) ↔ (t.mode = .debug →
      t.size < UInt16.size ∧ ∀ name ∈ t.names, name.utf8ByteSize < UInt16.size) := by
  have hcount : (∃ bytes, encodeCount .names t.size = .ok bytes) ↔ t.size < UInt16.size :=
    exists_encodeCount_iff
  have hnames : (∃ bss, t.names.mapM encodeName = .ok bss) ↔
      ∀ name ∈ t.names, name.utf8ByteSize < UInt16.size := by
    simp only [exists_mapM_iff, exists_encodeName_iff]
  rw [← hcount, ← hnames]
  unfold encodeNames
  cases t.mode with
  | release => simp
  | debug =>
    simp only [bind_eq_ok_iff, pure_eq_ok_iff, forall_const]
    refine ⟨?_, ?_⟩
    · rintro ⟨bytes, count, hc, bss, hm, -⟩
      exact ⟨⟨count, hc⟩, bss, hm⟩
    · rintro ⟨⟨count, hc⟩, bss, hm⟩
      exact ⟨_, count, hc, bss, hm, rfl⟩

/-- A table can be written just if its lists are equally long and all lengths fit. -/
theorem exists_encode_iff {t : SymbolTable} : (∃ bytes, t.encode = .ok bytes) ↔
    (t.references.length = t.size ∧ (t.mode = .debug → t.names.length = t.size)) ∧ t.Fits := by
  unfold encode
  simp only [bind_eq_ok_iff, pure_eq_ok_iff, checkCounts_eq_ok_iff]
  refine ⟨?_, ?_⟩
  · rintro ⟨bytes, -, hlen, ds, hds, cs, -, rs, hrs, ns, hns, -⟩
    refine ⟨hlen, exists_encodeWords_iff.1 ⟨ds, hds⟩, ?_, ?_⟩
    · intro sites hs
      exact exists_encodeWords_iff.1 (exists_mapM_iff.1 ⟨rs, hrs⟩ sites hs)
    · intro hm
      exact (exists_encodeNames_iff.1 ⟨ns, hns⟩ hm).2
  · rintro ⟨hlen, hsize, hsites, hnames⟩
    obtain ⟨ds, hds⟩ := (@exists_encodeWords_iff .defines t.defines).2 hsize
    obtain ⟨cs, hcs⟩ := (@exists_encodeCount_iff .references t.size).2 hsize
    obtain ⟨rs, hrs⟩ := exists_mapM_iff.2 fun sites hs =>
      (@exists_encodeWords_iff .references sites).2 (hsites sites hs)
    obtain ⟨ns, hns⟩ := exists_encodeNames_iff.2 fun hm => ⟨hsize, hnames hm⟩
    exact ⟨_, (), hlen, ds, hds, cs, hcs, rs, hrs, ns, hns, rfl⟩

theorem encodeNames_eq_error {t : SymbolTable} {e : FormatError} (h : t.encodeNames = .error e) :
    e = .tooLarge .names := by
  unfold encodeNames at h
  cases hm : t.mode with
  | release =>
    rw [hm] at h
    cases h
  | debug =>
    rw [hm] at h
    simp only [bind_eq_error_iff] at h
    rcases h with h | ⟨_, -, h | ⟨_, -, h⟩⟩
    · exact (encodeCount_eq_error_iff.1 h).2
    · obtain ⟨before, name, after, bss, -, -, hn⟩ := mapM_eq_error_iff.1 h
      exact (encodeName_eq_error_iff.1 hn).2
    · cases h

/-- If the lists of a table are equally long and no list of references is too long, it can
only be that there are too many labels, which is found first, or that a name is too long. -/
theorem encode_eq_error_of_references {t : SymbolTable} {e : FormatError}
    (hlen : t.references.length = t.size ∧ (t.mode = .debug → t.names.length = t.size))
    (hsites : ∀ sites ∈ t.references, sites.length < UInt16.size) (h : t.encode = .error e) :
    e = .tooLarge (if t.size < UInt16.size then .names else .defines) := by
  unfold encode at h
  rw [checkCounts_eq_ok_iff (x := ()).2 hlen] at h
  change (encodeWords .defines t.defines >>= _) = _ at h
  rw [bind_eq_error_iff] at h
  rcases h with h | ⟨ds, hds, h⟩
  · obtain ⟨hsize, rfl⟩ := encodeWords_eq_error_iff.1 h
    rw [if_neg (show ¬ t.size < UInt16.size from Nat.not_lt.2 hsize)]
  · have hsize : t.size < UInt16.size := exists_encodeWords_iff.1 ⟨ds, hds⟩
    rw [if_pos hsize]
    simp only [bind_eq_error_iff] at h
    rcases h with h | ⟨_, -, h | ⟨_, -, h | ⟨_, -, h⟩⟩⟩
    · exact absurd (encodeCount_eq_error_iff.1 h).1 (Nat.not_le.2 hsize)
    · obtain ⟨before, sites, after, bss, hrefs, -, hs⟩ := mapM_eq_error_iff.1 h
      have hm : sites ∈ t.references := by simp [hrefs]
      exact absurd (encodeWords_eq_error_iff.1 hs).1 (Nat.not_le.2 (hsites sites hm))
    · exact encodeNames_eq_error h
    · cases h

end WordMachine.SymbolTable
