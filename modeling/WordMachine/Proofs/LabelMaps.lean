-- What maps from label names hold: the entries of a list, and the uses of a
-- list grouped by name.
import WordMachine.Image.Layout

namespace WordMachine.LabelMap

variable {α : Type}

/-! ## The map of a list -/

/-- Names that are not the same are told apart by the order of the map. -/
theorem pairwise_of_nodup {es : List (String × α)} (hes : (es.map Prod.fst).Nodup) :
    es.Pairwise fun e f => ¬ compare e.1 f.1 = .eq := by
  rw [List.Nodup, List.pairwise_map] at hes
  exact hes.imp fun hne heq => hne (Std.LawfulEqCmp.eq_of_compare heq)

theorem getElem?_ofList_of_mem {es : List (String × α)} {name : String} {v : α}
    (hes : (es.map Prod.fst).Nodup) (h : (name, v) ∈ es) :
    (Std.ExtTreeMap.ofList es compare : LabelMap α)[name]? = some v :=
  Std.ExtTreeMap.getElem?_ofList_of_mem (k := name) Std.ReflCmp.compare_self
    (pairwise_of_nodup hes) h

theorem size_ofList {es : List (String × α)} (hes : (es.map Prod.fst).Nodup) :
    (Std.ExtTreeMap.ofList es compare : LabelMap α).size = es.length :=
  Std.ExtTreeMap.size_ofList (pairwise_of_nodup hes)

/-- The map has values for the names in the list and for no others. -/
theorem getElem?_ofList_isSome {es : List (String × α)} {name : String} :
    (Std.ExtTreeMap.ofList es compare : LabelMap α)[name]?.isSome ↔ name ∈ es.map Prod.fst := by
  rw [← Std.ExtTreeMap.mem_iff_isSome_getElem?, Std.ExtTreeMap.mem_ofList, List.contains_iff_mem]

theorem getElem?_ofList_iff {es : List (String × α)} {name : String} {v : α}
    (hes : (es.map Prod.fst).Nodup) :
    (Std.ExtTreeMap.ofList es compare : LabelMap α)[name]? = some v ↔ (name, v) ∈ es := by
  refine ⟨fun h => ?_, getElem?_ofList_of_mem hes⟩
  have hm : name ∈ es.map Prod.fst := by
    rw [← getElem?_ofList_isSome, h]
    rfl
  obtain ⟨⟨n, w⟩, hw, rfl⟩ := List.mem_map.1 hm
  rw [getElem?_ofList_of_mem hes hw] at h
  cases h
  exact hw

/-! ## Uses grouped by name -/

/-- The offsets of the uses of one name, in the order of the list. -/
def usesOf (name : String) (uses : List (String × UInt16)) : List UInt16 :=
  (uses.filter (·.1 == name)).map Prod.snd

theorem mem_usesOf {name : String} {uses : List (String × UInt16)} {s : UInt16} :
    s ∈ usesOf name uses ↔ (name, s) ∈ uses := by
  unfold usesOf
  simp only [List.mem_map, List.mem_filter, beq_iff_eq, Prod.exists]
  constructor
  · rintro ⟨n, t, ⟨hm, rfl⟩, rfl⟩
    exact hm
  · intro hm
    exact ⟨name, s, ⟨hm, rfl⟩, rfl⟩

/-- A name that is used has the list of its uses, any other has no entry. -/
theorem getElem?_groups (uses : List (String × UInt16)) (name : String) :
    (groups uses)[name]? =
      if usesOf name uses = [] then none else some (usesOf name uses) := by
  induction uses with
  | nil => simp [groups, usesOf]
  | cons u uses ih =>
    have hg : groups (u :: uses) =
        (groups uses).alter u.1 fun offsets => some (u.2 :: offsets.getD []) := rfl
    rw [hg, Std.ExtTreeMap.getElem?_alter]
    by_cases hn : u.1 = name
    · subst hn
      rw [if_pos Std.ReflCmp.compare_self, ih]
      have hu : usesOf u.1 (u :: uses) = u.2 :: usesOf u.1 uses := by simp [usesOf]
      rw [hu]
      split <;> simp_all
    · rw [if_neg fun h => hn (Std.LawfulEqCmp.eq_of_compare h), ih]
      have hu : usesOf name (u :: uses) = usesOf name uses := by simp [usesOf, hn]
      rw [hu]

end WordMachine.LabelMap
