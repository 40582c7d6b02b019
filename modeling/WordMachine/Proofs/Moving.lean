-- Moving images. The bases act on the image of a program as words add up, so a moved
-- image can be moved on and back, and a move touches nothing but words for addresses.
import WordMachine.Proofs.Relocation

namespace WordMachine

/-! ## What a move leaves alone -/

namespace Image

theorem size_patch (base : UInt16) (bytes : Array UInt8) (site : UInt16) :
    (patch base bytes site).size = bytes.size := by
  unfold patch
  split
  · simp
  · rfl

/-- A patch changes no byte but the two at its site. -/
theorem getElem?_patch_of_ne (base : UInt16) (bytes : Array UInt8) {site : UInt16} {k : Nat}
    (h : k ≠ site.toNat ∧ k ≠ site.toNat + 1) : (patch base bytes site)[k]? = bytes[k]? := by
  unfold patch
  split
  · simp only
    rw [Array.getElem?_setIfInBounds_ne (Ne.symm h.2), Array.getElem?_setIfInBounds_ne (Ne.symm h.1)]
  · rfl

theorem size_foldl_patch (base : UInt16) (sites : List UInt16) (bytes : Array UInt8) :
    (sites.foldl (patch base) bytes).size = bytes.size := by
  induction sites generalizing bytes with
  | nil => rfl
  | cons s ss ih => rw [List.foldl_cons, ih, size_patch]

theorem getElem?_foldl_patch_of_ne (base : UInt16) {sites : List UInt16} {k : Nat}
    (h : ∀ s ∈ sites, k ≠ s.toNat ∧ k ≠ s.toNat + 1) (bytes : Array UInt8) :
    (sites.foldl (patch base) bytes)[k]? = bytes[k]? := by
  induction sites generalizing bytes with
  | nil => rfl
  | cons s ss ih =>
    have hs := h s List.mem_cons_self
    have hss : ∀ t ∈ ss, k ≠ t.toNat ∧ k ≠ t.toNat + 1 :=
      fun t ht => h t (List.mem_cons_of_mem _ ht)
    rw [List.foldl_cons, ih hss, getElem?_patch_of_ne base bytes hs]

theorem length_bytes_relocate (image : Image) (base : UInt16) :
    (image.relocate base).bytes.length = image.bytes.length := by
  unfold relocate
  rw [Array.length_toList, size_foldl_patch, List.size_toArray]

theorem getElem?_bytes_relocate (image : Image) (base : UInt16) {k : Nat}
    (h : ∀ s ∈ image.relocations.sites, k ≠ s.toNat ∧ k ≠ s.toNat + 1) :
    (image.relocate base).bytes[k]? = image.bytes[k]? := by
  unfold relocate
  rw [Array.getElem?_toList, getElem?_foldl_patch_of_ne base h, List.getElem?_toArray]

/-! ## The action of the bases -/

/-- The bases act on an image: it can be moved on and back, and each move reaches the words
for addresses and nothing else. -/
structure Moves (image : Image) : Prop where
  zero : image.relocate 0 = image
  add : ∀ a b, (image.relocate a).relocate b = image.relocate (a + b)
  back : ∀ a, (image.relocate a).relocate (-a) = image
  /-- No byte is added or dropped. -/
  length_eq : ∀ a, (image.relocate a).bytes.length = image.bytes.length
  /-- Bytes beside the sites stay as they are. -/
  beside : ∀ a k, (∀ s ∈ image.relocations.sites, k ≠ s.toNat ∧ k ≠ s.toNat + 1) →
    (image.relocate a).bytes[k]? = image.bytes[k]?
  /-- At each site there is a word, and it is moved. -/
  at_site : ∀ a, ∀ s ∈ image.relocations.sites, ∃ w,
    (image.bytes.drop s.toNat).take 2 = Word.toBytes w ∧
      ((image.relocate a).bytes.drop s.toNat).take 2 = Word.toBytes (w + a)
  /-- Each label is moved. -/
  defines_eq : ∀ a (name : String),
    (image.relocate a).defines[name]? = image.defines[name]?.map (· + a)
  /-- The sites of a label hold its moved address. -/
  holds : ∀ a (name : String) (sites : List UInt16), image.references[name]? = some sites →
    ∀ s ∈ sites, ∃ address, image.defines[name]? = some address ∧
      (image.relocate a).defines[name]? = some (address + a) ∧
      ((image.relocate a).bytes.drop s.toNat).take 2 = Word.toBytes (address + a)
  references_eq : ∀ a, (image.relocate a).references = image.references
  relocations_eq : ∀ a, (image.relocate a).relocations = image.relocations
  sourceMap_eq : ∀ a, (image.relocate a).sourceMap = image.sourceMap

end Image

namespace Program.Compilable

variable {p : Program} (hp : p.Compilable)
include hp

/-- The sites of a label hold the address that it has at the base. -/
theorem relocated_at_site {name : String} {sites : List UInt16}
    (h : p.image.references[name]? = some sites) {s : UInt16} (hs : s ∈ sites) (base : UInt16) :
    ((p.image.relocate base).bytes.drop s.toNat).take 2 =
      Word.toBytes (p.defines.getD name 0 + base) := by
  rw [← LabelMap.getD_moved (hp.getElem?_defines_of_references h hs), hp.relocate_image]
  exact hp.output_at_site h hs (p.defines.moved base)

end Program.Compilable

/-- The image of a program is moved by words as they add up. -/
theorem bases_act_on_images (p : Program) (image : Image) (h : p.compile = .ok image) :
    image.Moves := by
  obtain ⟨hp, rfl⟩ := Program.compile_eq_ok_iff.1 h
  have hzero : p.image.relocate 0 = p.image := by
    rw [hp.relocate_image, p.imageAt_zero]
  have hadd : ∀ a b, (p.image.relocate a).relocate b = p.image.relocate (a + b) := by
    intro a b
    -- A moved image is what the nodes put out for moved labels, and labels move by sums.
    rw [hp.relocate_image, hp.relocate_image, hp.relocate_imageAt]
  refine ⟨hzero, hadd, ?_, ?_, ?_, ?_, ?_, ?_, ?_, ?_, ?_⟩
  · intro a
    rw [hadd, UInt16.add_right_neg, hzero]
  · intro a
    exact p.image.length_bytes_relocate a
  · intro a k hk
    exact p.image.getElem?_bytes_relocate a hk
  · intro a s hs
    obtain ⟨name, sites, hr, hm⟩ := hp.mem_relocations.1 hs
    exact ⟨p.defines.getD name 0, hp.output_at_site hr hm p.defines, hp.relocated_at_site hr hm a⟩
  · intro a name
    exact LabelMap.getElem?_moved p.defines a name
  · intro a name sites hr s hm
    have hd := hp.getElem?_defines_of_references hr hm
    refine ⟨p.defines.getD name 0, hd, ?_, hp.relocated_at_site hr hm a⟩
    have hmoved := LabelMap.getElem?_moved p.defines a name
    rw [hd] at hmoved
    exact hmoved
  · intro a
    rfl
  · intro a
    rfl
  · intro a
    rfl

/-- Two jumps are moved, the address of one of them around the end of memory, and back. -/
theorem two_jumps_are_moved_and_back : twoJumps.compile = .ok twoJumps.image ∧
    (twoJumps.image.relocate 0xFFFE).bytes = [0xDE, 0xAA, 0, 3, 7, 0xDE, 0xAA, 0xFF, 0xFE] ∧
      (twoJumps.image.relocate 0xFFFE).relocate 2 = twoJumps.image := by
  have hc : twoJumps.compile = .ok twoJumps.image := by decide +kernel
  exact ⟨hc, by decide +kernel, (bases_act_on_images twoJumps twoJumps.image hc).back 0xFFFE⟩

end WordMachine
