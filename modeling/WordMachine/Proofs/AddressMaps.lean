-- What maps from addresses hold: an entry is found under its own key, and the
-- last entry at or before an address is found among all of them.
import Mathlib.Data.List.Induction
import WordMachine.AddressMap

namespace WordMachine.AddressMap

variable {α : Type} {m : AddressMap α} {j k : Nat} {v w : α}

theorem eq_of_mem (h : (k, v) ∈ m.entries) (h' : (k, w) ∈ m.entries) : v = w := by
  have hd := m.descending
  generalize m.entries = es at *
  induction es with
  | nil => cases h
  | cons e es ih =>
    obtain ⟨he, hes⟩ := List.pairwise_cons.1 hd
    rcases List.mem_cons.1 h with rfl | hv
    · rcases List.mem_cons.1 h' with hw | hw
      · exact (Prod.mk.inj hw).2.symm
      · exact absurd (he (k, w) hw) (Nat.lt_irrefl k)
    · rcases List.mem_cons.1 h' with rfl | hw
      · exact absurd (he (k, v) hv) (Nat.lt_irrefl k)
      · exact ih hv hw hes

theorem get?_eq_some_iff : m.get? k = some v ↔ (k, v) ∈ m.entries := by
  unfold get?
  rw [Option.map_eq_some_iff]
  constructor
  · rintro ⟨⟨i, w⟩, hf, rfl⟩
    have hk := List.find?_some hf
    rw [beq_iff_eq] at hk
    simp only at hk
    exact hk ▸ List.mem_of_find?_eq_some hf
  · intro h
    cases hf : m.entries.find? (·.1 == k) with
    | none =>
      have hn := List.find?_eq_none.1 hf _ h
      simp at hn
    | some e =>
      obtain ⟨i, w⟩ := e
      have hk := List.find?_some hf
      rw [beq_iff_eq] at hk
      simp only at hk
      subst hk
      exact ⟨_, rfl, eq_of_mem (List.mem_of_find?_eq_some hf) h⟩

@[simp] theorem get?_empty : (empty : AddressMap α).get? k = none := rfl

/-! ## Changes -/

theorem mem_insertEntry_iff {es : List (Nat × α)} (hd : es.Pairwise fun a b => b.1 < a.1)
    {x : Nat × α} : x ∈ insertEntry k v es ↔ x = (k, v) ∨ x ∈ es ∧ x.1 ≠ k := by
  induction es with
  | nil => simp [insertEntry]
  | cons e es ih =>
    obtain ⟨he, hes⟩ := List.pairwise_cons.1 hd
    -- The keys behind `e` are smaller, so one that is not smaller than `e` is not among them.
    have hne : ¬ k < e.1 → x ∈ es → x.1 ≠ k := by
      intro hk hx hxk
      have := he x hx
      omega
    unfold insertEntry
    split
    · rename_i hk
      have : x = e → x.1 ≠ k := by rintro rfl; omega
      grind
    · split
      · rename_i hlt hk
        have : x = e → x.1 = k := by rintro rfl; exact hk
        grind
      · rename_i hlt hek
        rw [List.mem_cons, ih hes]
        have : x = e → x.1 ≠ k := by rintro rfl; exact hek
        grind

theorem get?_insert : (m.insert k v).get? j = if j = k then some v else m.get? j := by
  ext w
  rw [get?_eq_some_iff]
  unfold insert
  rw [mem_insertEntry_iff m.descending, ← get?_eq_some_iff]
  by_cases h : j = k
  · simp [h, eq_comm]
  · simp [h]

theorem get?_erase : (m.erase k).get? j = if j = k then none else m.get? j := by
  ext w
  rw [get?_eq_some_iff]
  unfold erase
  rw [List.mem_filter, ← get?_eq_some_iff]
  by_cases h : j = k
  · simp [h]
  · simp [h]

theorem filter_insertEntry {es : List (Nat × α)} (h : ∀ e ∈ es, e.1 ≠ k) :
    (insertEntry k v es).filter (·.1 != k) = es := by
  induction es with
  | nil => simp [insertEntry]
  | cons e es ih =>
    obtain ⟨he, hes⟩ := List.forall_mem_cons.1 h
    have hkept : es.filter (·.1 != k) = es :=
      List.filter_eq_self.2 fun x hx => bne_iff_ne.2 (hes x hx)
    unfold insertEntry
    split
    · simp [he, hkept]
    · rw [List.filter_cons_of_pos (by simpa using he), ih hes]

/-- A new entry that is erased again leaves no trace. -/
theorem erase_insert (h : m.get? k = none) : (m.insert k v).erase k = m := by
  have hkey : ∀ e ∈ m.entries, e.1 ≠ k := by
    rintro ⟨i, w⟩ he rfl
    rw [get?_eq_some_iff.2 he] at h
    cases h
  unfold erase insert
  congr
  exact filter_insertEntry hkey

theorem ofList_append_singleton (es : List (Nat × α)) (e : Nat × α) :
    ofList (es ++ [e]) = (ofList es).insert e.1 e.2 := by
  unfold ofList
  rw [List.foldl_append]
  rfl

/-- Of the entries of a list with one key, the last one counts. -/
theorem get?_ofList (es : List (Nat × α)) :
    (ofList es).get? k = (es.reverse.find? (·.1 == k)).map (·.2) := by
  induction es using List.reverseRecOn with
  | nil => rfl
  | append_singleton es e ih =>
    rw [ofList_append_singleton, get?_insert, List.reverse_append, List.reverse_singleton,
      List.singleton_append, List.find?_cons, ih]
    by_cases h : k = e.1
    · simp [h]
    · have hne : (e.1 == k) = false := beq_eq_false_iff_ne.2 (Ne.symm h)
      rw [if_neg h, hne]

/-! ## Values in order -/

theorem mem_toList : (k, v) ∈ m.toList ↔ m.get? k = some v := by
  unfold toList
  rw [List.mem_reverse, get?_eq_some_iff]

theorem mem_values : v ∈ m.values ↔ ∃ k, m.get? k = some v := by
  unfold values
  simp only [List.mem_map, Prod.exists, mem_toList, exists_eq_right]

/-! ## The last entry at or before an address -/

theorem of_floor?_eq_some (h : m.floor? k = some (j, v)) :
    m.get? j = some v ∧ j ≤ k ∧ ∀ i w, m.get? i = some w → i ≤ k → i ≤ j := by
  unfold floor? at h
  obtain ⟨hk, front, back, he, hfront⟩ := List.find?_eq_some_iff_append.1 h
  have hd := m.descending
  simp only [get?_eq_some_iff, decide_eq_true_eq] at hk ⊢
  rw [he] at hd ⊢
  refine ⟨by simp, hk, fun i w hi hik => ?_⟩
  rcases List.mem_append.1 hi with hi | hi
  · have := hfront _ hi
    simp at this
    omega
  · rcases List.mem_cons.1 hi with hi | hi
    · cases hi
      exact Nat.le_refl j
    · have hlt := (List.pairwise_cons.1 (List.pairwise_append.1 hd).2.1).1 _ hi
      exact Nat.le_of_lt hlt

theorem floor?_eq_none_iff : m.floor? k = none ↔ ∀ i w, m.get? i = some w → k < i := by
  unfold floor?
  simp only [List.find?_eq_none, get?_eq_some_iff, decide_eq_true_eq, Nat.not_le, Prod.forall]

end WordMachine.AddressMap
