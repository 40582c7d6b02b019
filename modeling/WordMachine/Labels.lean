-- Labels in an image: maps from their names, in the order of the code points
-- of the names, and sets of sites, which are the offsets of the words that
-- hold an address.
import Std.Data.ExtTreeMap

namespace WordMachine

/-- A finite map from label names. Two maps with the same values are equal. -/
abbrev LabelMap (α : Type) := Std.ExtTreeMap String α compare

/-- A finite set of offsets, in ascending order. -/
structure SiteSet where
  sites : List UInt16
  ascending : sites.Pairwise (· < ·)
  deriving DecidableEq, Repr

namespace SiteSet

/-- The set without sites. -/
def empty : SiteSet := ⟨[], .nil⟩

instance : EmptyCollection SiteSet := ⟨empty⟩

instance : Inhabited SiteSet := ⟨empty⟩

/-- The sites with `s` in its place. -/
def insertSite (s : UInt16) : List UInt16 → List UInt16
  | [] => [s]
  | t :: ts =>
    if s < t then s :: t :: ts
    else if s = t then t :: ts
    else t :: insertSite s ts

theorem mem_insertSite {s x : UInt16} {ts : List UInt16} :
    x ∈ insertSite s ts ↔ x = s ∨ x ∈ ts := by
  induction ts with
  | nil => simp [insertSite]
  | cons t ts ih =>
    simp only [insertSite]
    split
    · simp
    · split
      · rename_i h
        subst h
        simp
      · simp only [List.mem_cons, ih]
        constructor
        · rintro (h | h | h) <;> simp [h]
        · rintro (h | h | h) <;> simp [h]

theorem pairwise_insertSite {s : UInt16} {ts : List UInt16} (h : ts.Pairwise (· < ·)) :
    (insertSite s ts).Pairwise (· < ·) := by
  induction ts with
  | nil => simp [insertSite]
  | cons t ts ih =>
    obtain ⟨ht, hts⟩ := List.pairwise_cons.1 h
    simp only [insertSite]
    split
    · rename_i hs
      refine List.pairwise_cons.2 ⟨fun b hb => ?_, h⟩
      rcases List.mem_cons.1 hb with hb | hb
      · exact hb ▸ hs
      · exact UInt16.lt_trans hs (ht b hb)
    · split
      · exact h
      · rename_i hlt hne
        refine List.pairwise_cons.2 ⟨fun b hb => ?_, ih hts⟩
        rcases mem_insertSite.1 hb with hb | hb
        · subst hb
          exact UInt16.lt_of_le_of_ne (UInt16.not_lt.1 hlt) (Ne.symm hne)
        · exact ht b hb

/-- The set with one more site. -/
def insert (m : SiteSet) (s : UInt16) : SiteSet :=
  ⟨insertSite s m.sites, pairwise_insertSite m.ascending⟩

/-- The set of the sites in a list. -/
def ofList (ss : List UInt16) : SiteSet :=
  ss.foldr (fun s m => m.insert s) empty

/-- The number of sites. -/
def size (m : SiteSet) : Nat := m.sites.length

end SiteSet

end WordMachine
