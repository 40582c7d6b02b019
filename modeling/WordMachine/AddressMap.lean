-- Finite maps from addresses. Besides the entry at an address they answer
-- which entry is the last one at or before it.

namespace WordMachine

/-- A finite map from numbers, as its entries with the highest key first. -/
structure AddressMap (α : Type) where
  entries : List (Nat × α)
  descending : entries.Pairwise fun a b => b.1 < a.1
  deriving DecidableEq, Repr

namespace AddressMap

variable {α : Type}

/-! ## Making maps -/

/-- The map without entries. -/
def empty : AddressMap α := ⟨[], .nil⟩

instance : EmptyCollection (AddressMap α) := ⟨empty⟩

instance : Inhabited (AddressMap α) := ⟨empty⟩

/-- The entries with `v` at `k` instead of what was there. -/
def insertEntry (k : Nat) (v : α) : List (Nat × α) → List (Nat × α)
  | [] => [(k, v)]
  | e :: es =>
    if e.1 < k then (k, v) :: e :: es
    else if e.1 = k then (k, v) :: es
    else e :: insertEntry k v es

theorem mem_insertEntry {k : Nat} {v : α} {es : List (Nat × α)} {x : Nat × α}
    (h : x ∈ insertEntry k v es) : x = (k, v) ∨ x ∈ es := by
  induction es with
  | nil => simpa [insertEntry] using h
  | cons e es ih =>
    simp only [insertEntry] at h
    split at h
    · simpa using h
    · split at h
      · rcases List.mem_cons.1 h with h | h
        · exact .inl h
        · exact .inr (List.mem_cons_of_mem _ h)
      · rcases List.mem_cons.1 h with h | h
        · exact .inr (h ▸ List.mem_cons_self)
        · rcases ih h with h | h
          · exact .inl h
          · exact .inr (List.mem_cons_of_mem _ h)

theorem pairwise_insertEntry {k : Nat} {v : α} {es : List (Nat × α)}
    (h : es.Pairwise fun a b => b.1 < a.1) :
    (insertEntry k v es).Pairwise fun a b => b.1 < a.1 := by
  induction es with
  | nil => simp [insertEntry]
  | cons e es ih =>
    obtain ⟨he, hes⟩ := List.pairwise_cons.1 h
    simp only [insertEntry]
    split
    · rename_i hk
      refine List.pairwise_cons.2 ⟨fun b hb => ?_, h⟩
      rcases List.mem_cons.1 hb with hb | hb
      · exact hb ▸ hk
      · exact Nat.lt_trans (he b hb) hk
    · split
      · rename_i hk
        exact List.pairwise_cons.2 ⟨fun b hb => hk ▸ he b hb, hes⟩
      · rename_i hlt hne
        refine List.pairwise_cons.2 ⟨fun b hb => ?_, ih hes⟩
        rcases mem_insertEntry hb with hb | hb
        · subst hb
          simp only
          omega
        · exact he b hb

/-- The map with `v` at `k`. -/
def insert (m : AddressMap α) (k : Nat) (v : α) : AddressMap α :=
  ⟨insertEntry k v m.entries, pairwise_insertEntry m.descending⟩

/-- The map without an entry at `k`. -/
def erase (m : AddressMap α) (k : Nat) : AddressMap α :=
  ⟨m.entries.filter (·.1 != k), m.descending.filter _⟩

/-- The map of a list of entries, of which later ones win. -/
def ofList (es : List (Nat × α)) : AddressMap α :=
  es.foldl (fun m e => m.insert e.1 e.2) empty

/-! ## Asking maps -/

/-- The value at `k`. -/
def get? (m : AddressMap α) (k : Nat) : Option α :=
  (m.entries.find? (·.1 == k)).map (·.2)

/-- The entry with the greatest key that is at most `k`. -/
def floor? (m : AddressMap α) (k : Nat) : Option (Nat × α) :=
  m.entries.find? (·.1 ≤ k)

/-- The entries in ascending order of their keys. -/
def toList (m : AddressMap α) : List (Nat × α) := m.entries.reverse

/-- The values in ascending order of their keys. -/
def values (m : AddressMap α) : List α := m.toList.map (·.2)

/-- The number of entries. -/
def size (m : AddressMap α) : Nat := m.entries.length

/-- There is no entry. -/
def isEmpty (m : AddressMap α) : Bool := m.entries.isEmpty

theorem pairwise_toList (m : AddressMap α) : m.toList.Pairwise fun a b => a.1 < b.1 :=
  List.pairwise_reverse.2 m.descending

end AddressMap

end WordMachine
