-- The labels in the symbol table of an image: each one once, by address and then by the bytes
-- of the name, in whatever order they were found.
import Mathlib.Data.Prod.Lex
import WordMachine.Image.Relocation
import WordMachine.Proofs.ByteOrder

namespace WordMachine

/-! ## The order of labels -/

/-- A label stands before another one: its address is smaller, or it has the same address and
the bytes of its name come first. -/
def Precedes (l k : String × UInt16) : Prop :=
  l.2 < k.2 ∨ l.2 = k.2 ∧ l.1.toUTF8.toList < k.1.toUTF8.toList

instance : DecidableRel Precedes := fun l k =>
  inferInstanceAs (Decidable (l.2 < k.2 ∨ l.2 = k.2 ∧ l.1.toUTF8.toList < k.1.toUTF8.toList))

/-- What labels are compared by, as a pair in the lexicographic order. -/
def labelKey (l : String × UInt16) : Nat ×ₗ String := toLex (l.2.toNat, l.1)

theorem precedes_iff {l k : String × UInt16} : Precedes l k ↔ labelKey l < labelKey k := by
  unfold Precedes labelKey
  rw [Prod.Lex.toLex_lt_toLex, Text.toUTF8_lt_iff, UInt16.lt_iff_toNat_lt, ← UInt16.toNat_inj]

theorem labelKey_injective : Function.Injective labelKey := by
  intro l k h
  obtain ⟨ha, hn⟩ := Prod.mk.inj (toLex.injective h)
  exact Prod.ext hn (UInt16.toNat_inj.1 ha)

/-- Two rows of the same labels that are both in order are the same. -/
theorem eq_of_pairwise_precedes {ls ks : List (String × UInt16)} (hp : ls.Perm ks)
    (hl : ls.Pairwise Precedes) (hk : ks.Pairwise fun l k => ¬ Precedes k l) : ls = ks := by
  have hl : ls.Pairwise fun l k => ¬ Precedes k l := by
    refine hl.imp fun h => ?_
    rw [precedes_iff] at h ⊢
    exact h.asymm
  refine List.Perm.eq_of_pairwise ?_ hl hk hp
  intro l k _ _ h h'
  rw [precedes_iff, not_lt] at h h'
  exact labelKey_injective (le_antisymm h h')

/-! ## Labels of an image -/

theorem address_le_trans (l k j : String × UInt16) (h : decide (l.2 ≤ k.2) = true)
    (h' : decide (k.2 ≤ j.2) = true) : decide (l.2 ≤ j.2) = true :=
  decide_eq_true (UInt16.le_trans (of_decide_eq_true h) (of_decide_eq_true h'))

theorem address_le_total (l k : String × UInt16) :
    (decide (l.2 ≤ k.2) || decide (k.2 ≤ l.2)) = true := by
  simpa using UInt16.le_total l.2 k.2

namespace Image

theorem perm_sortedLabels (image : Image) : image.sortedLabels.Perm image.defines.toList :=
  List.mergeSort_perm _ _

theorem mem_sortedLabels {image : Image} {name : String} {address : UInt16} :
    (name, address) ∈ image.sortedLabels ↔ image.defines[name]? = some address := by
  rw [(perm_sortedLabels image).mem_iff, Std.ExtTreeMap.mem_toList_iff_getElem?_eq_some]

theorem length_sortedLabels (image : Image) :
    image.sortedLabels.length = image.defines.size := by
  rw [(perm_sortedLabels image).length_eq, Std.ExtTreeMap.length_toList]

theorem pairwise_le_sortedLabels (image : Image) :
    image.sortedLabels.Pairwise fun l k => l.2 ≤ k.2 := by
  refine (List.pairwise_mergeSort address_le_trans address_le_total _).imp fun h => ?_
  exact of_decide_eq_true h

/-- Labels at one address stay in the order of their names, since the sort is stable. -/
theorem filter_sortedLabels (image : Image) (address : UInt16) :
    image.sortedLabels.filter (·.2 = address) =
      image.defines.toList.filter (·.2 = address) := by
  have hsame : (image.defines.toList.filter (·.2 = address)).Pairwise
      fun l k => decide (l.2 ≤ k.2) = true := by
    rw [List.pairwise_filter]
    refine List.pairwise_of_forall fun l k hl hk => ?_
    rw [of_decide_eq_true hl, of_decide_eq_true hk]
    exact decide_eq_true (UInt16.le_refl address)
  have hsub := List.sublist_mergeSort address_le_trans address_le_total hsame List.filter_sublist
  have hfilter := hsub.filter (·.2 = address)
  simp only [List.filter_filter, Bool.and_self] at hfilter
  have hperm := (perm_sortedLabels image).filter (·.2 = address)
  exact (hfilter.eq_of_length hperm.length_eq.symm).symm

theorem pairwise_sortedLabels (image : Image) : image.sortedLabels.Pairwise Precedes := by
  have hle := image.pairwise_le_sortedLabels
  rw [List.pairwise_iff_forall_sublist] at hle ⊢
  intro l k hs
  rcases UInt16.lt_or_eq_of_le (hle hs) with hlt | heq
  · exact .inl hlt
  · refine .inr ⟨heq, Text.toUTF8_lt_iff.2 ?_⟩
    -- The map has its labels in the order of their names.
    have hboth : [l, k].Sublist image.defines.toList := by
      have hfilter := hs.filter (·.2 = k.2)
      rw [filter_sortedLabels] at hfilter
      simp only [heq, decide_true, List.filter_cons_of_pos, List.filter_nil] at hfilter
      exact hfilter.trans List.filter_sublist
    exact compareOfLessAndEq_eq_lt.1
      (List.pairwise_iff_forall_sublist.1 Std.ExtTreeMap.ordered_keys_toList hboth)

end Image

/-! ## The table of the labels -/

namespace SymbolTable

/-- The table of labels that come in any order: they are sorted and then listed one by one. -/
def ofLabels (mode : SymbolMode) (references : LabelMap (List UInt16))
    (labels : List (String × UInt16)) : SymbolTable :=
  (labels.mergeSort fun l k => decide (¬ Precedes k l)).foldl
    (fun t l => t.push l.1 l.2 (references[l.1]?.getD [])) (empty mode)

theorem foldl_push (references : LabelMap (List UInt16)) (labels : List (String × UInt16))
    (t : SymbolTable) :
    labels.foldl (fun t l => t.push l.1 l.2 (references[l.1]?.getD [])) t =
      { t with
        defines := t.defines ++ labels.map (·.2)
        references := t.references ++ labels.map fun l => references[l.1]?.getD []
        names := if t.mode = .debug then t.names ++ labels.map (·.1) else t.names } := by
  induction labels generalizing t with
  | nil => simp
  | cons l labels ih =>
    rw [List.foldl_cons, ih]
    by_cases hm : t.mode = .debug
    · simp [push, hm]
    · simp [push, hm]

/-- A table lists labels: entry by entry the address, the references and, in debug mode, the
name of each of them, and nothing else. -/
structure Lists (t : SymbolTable) (references : LabelMap (List UInt16))
    (labels : List (String × UInt16)) : Prop where
  defines_eq : t.defines = labels.map (·.2)
  references_eq : t.references = labels.map fun l => references[l.1]?.getD []
  names_eq : t.names = if t.mode = .debug then labels.map (·.1) else []

end SymbolTable

theorem Image.lists_symbolTable (image : Image) (mode : SymbolMode) :
    (image.symbolTable mode).Lists image.references image.sortedLabels := ⟨rfl, rfl, rfl⟩

/-- It makes no difference in which order the labels are found. -/
theorem Image.ofLabels_of_perm (image : Image) (mode : SymbolMode)
    {labels : List (String × UInt16)} (hp : labels.Perm image.defines.toList) :
    SymbolTable.ofLabels mode image.references labels = image.symbolTable mode := by
  have hsorted : (labels.mergeSort fun l k => decide (¬ Precedes k l)).Pairwise
      fun l k => ¬ Precedes k l := by
    refine (List.pairwise_mergeSort ?_ ?_ labels).imp fun h => of_decide_eq_true h
    · intro l k j h h'
      simp only [precedes_iff, not_lt, decide_eq_true_eq] at h h' ⊢
      exact h.trans h'
    · intro l k
      simp only [precedes_iff, not_lt, Bool.or_eq_true, decide_eq_true_eq]
      exact le_total _ _
  have hperm : image.sortedLabels.Perm (labels.mergeSort fun l k => decide (¬ Precedes k l)) :=
    (image.perm_sortedLabels.trans hp.symm).trans (List.mergeSort_perm _ _).symm
  unfold SymbolTable.ofLabels
  rw [← eq_of_pairwise_precedes hperm image.pairwise_sortedLabels hsorted,
    SymbolTable.foldl_push]
  cases mode <;> rfl

/-- The symbol table of an image lists each of its labels once, by address and then by the
bytes of the name, with the references of that label. The order in which the labels are found
makes no difference, and the mode makes one for the names only. -/
theorem the_symbol_table_lists_each_label_once (image : Image) :
    (∃ labels : List (String × UInt16), labels.length = image.defines.size ∧
      (∀ name address, (name, address) ∈ labels ↔ image.defines[name]? = some address) ∧
      labels.Pairwise Precedes ∧
      ∀ mode, (image.symbolTable mode).mode = mode ∧
        (image.symbolTable mode).Lists image.references labels) ∧
    (∀ mode found, found.Perm image.defines.toList →
      SymbolTable.ofLabels mode image.references found = image.symbolTable mode) ∧
    (image.symbolTable .release).names = [] ∧
    (image.symbolTable .release).defines = (image.symbolTable .debug).defines ∧
    (image.symbolTable .release).references = (image.symbolTable .debug).references := by
  refine ⟨⟨image.sortedLabels, ?_, ?_, ?_, ?_⟩, ?_, rfl, rfl, rfl⟩
  · exact image.length_sortedLabels
  · exact fun name address => Image.mem_sortedLabels
  · exact image.pairwise_sortedLabels
  · exact fun mode => ⟨rfl, image.lists_symbolTable mode⟩
  · exact fun mode found hp => image.ofLabels_of_perm mode hp

/-- Three labels at one address, and one whose address wraps around when the image is moved. -/
def crowdedLabels : Image where
  bytes := []
  defines := .ofList [("z", (3 : UInt16)), ("é", 3), ("last", 0xFFFF), ("Z", 3)]
  references := .ofList [("z", ([2] : List UInt16))]
  relocations := .empty
  sourceMap := .empty

theorem crowded_labels_are_listed_in_order :
    [("z", 4), ("é", 4), ("last", 0), ("Z", 4)].Perm (crowdedLabels.relocate 1).defines.toList ∧
      SymbolTable.ofLabels .debug (crowdedLabels.relocate 1).references
          [("z", 4), ("é", 4), ("last", 0), ("Z", 4)] =
        (crowdedLabels.relocate 1).symbolTable .debug ∧
      (crowdedLabels.relocate 1).symbolTable .debug =
        ⟨.debug, [0, 4, 4, 4], [[], [], [2], []], ["last", "Z", "z", "é"]⟩ := by
  have hp : [("z", 4), ("é", 4), ("last", 0), ("Z", 4)].Perm
      (crowdedLabels.relocate 1).defines.toList := by decide +kernel
  have hany := (the_symbol_table_lists_each_label_once (crowdedLabels.relocate 1)).2.1
  have hsorted : (crowdedLabels.relocate 1).sortedLabels =
      [("last", 0), ("Z", 4), ("z", 4), ("é", 4)] := by
    refine eq_of_pairwise_precedes ?_ (Image.pairwise_sortedLabels _) (by decide +kernel)
    exact (Image.perm_sortedLabels _).trans (by decide +kernel)
  refine ⟨hp, hany .debug _ hp, ?_⟩
  unfold Image.symbolTable
  rw [hsorted]
  decide +kernel

end WordMachine
