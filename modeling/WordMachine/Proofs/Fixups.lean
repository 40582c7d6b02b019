-- What an image says about its nodes: where the labels are, which words hold
-- an address, and which address each of them holds.
import Mathlib.Data.List.Nodup
import WordMachine.Proofs.Compilation
import WordMachine.Proofs.LabelMaps

namespace WordMachine

/-! ## Labels -/

namespace Node

/-- The names of the labels of nodes, in the order of the nodes. -/
def labelNames (nodes : List Node) : List String :=
  nodes.filterMap fun n => n.label.map Label.name

end Node

namespace Placed

theorem define?_eq_some_iff {p : Placed} {name : String} {address : UInt16} :
    p.define? = some (name, address) ↔
      (∃ label, p.node.label = some label ∧ label.name = name) ∧
        address = UInt16.ofNat p.start := by
  unfold define?
  simp only [Option.map_eq_some_iff, Prod.mk.injEq]
  constructor
  · rintro ⟨l, hl, rfl, rfl⟩
    exact ⟨⟨l, hl, rfl⟩, rfl⟩
  · rintro ⟨⟨l, hl, rfl⟩, rfl⟩
    exact ⟨l, hl, rfl, rfl⟩

theorem names_of_defines (start : Nat) (nodes : List Node) :
    ((rowFrom [] start nodes).filterMap define?).map Prod.fst = Node.labelNames nodes := by
  conv => rhs; rw [← map_node_rowFrom start nodes]
  unfold Node.labelNames
  rw [List.map_filterMap, List.filterMap_map]
  congr 1
  funext p
  simp only [define?, Option.map_map, Function.comp_apply]
  rfl

theorem usedLabel?_eq_some_iff {p : Placed} {name : String} :
    p.usedLabel? = some name ↔ p.node.Uses name := by
  unfold usedLabel? Node.Uses
  constructor
  · intro h
    split at h
    · rename_i op a b used location hc
      cases h
      exact ⟨_, location, hc, rfl⟩
    · cases h
  · rintro ⟨⟨op, a, b, imm⟩, location, hc, hi⟩
    cases hi
    rw [hc]

theorem fixup?_eq_some_iff {p : Placed} {name : String} {s : UInt16} :
    p.fixup? = some (name, s) ↔ p.node.Uses name ∧ s = p.site := by
  unfold fixup?
  simp only [Option.map_eq_some_iff, Prod.mk.injEq, ← usedLabel?_eq_some_iff]
  constructor
  · rintro ⟨n, hn, rfl, rfl⟩
    exact ⟨hn, rfl⟩
  · rintro ⟨hn, rfl⟩
    exact ⟨name, hn, rfl, rfl⟩

theorem fixup?_eq_none_iff {p : Placed} : p.fixup? = none ↔ ∀ name, ¬ p.node.Uses name := by
  rw [Option.eq_none_iff_forall_ne_some]
  constructor
  · intro h name hu
    exact h (name, p.site) (fixup?_eq_some_iff.2 ⟨hu, rfl⟩)
  · rintro h ⟨name, s⟩ hf
    exact h name (fixup?_eq_some_iff.1 hf).1

end Placed

namespace Program

theorem mem_defines_iff {p : Program} {name : String} :
    name ∈ p.defines ↔ name ∈ Node.labelNames p.nodes := by
  rw [Std.ExtTreeMap.mem_iff_isSome_getElem?, defines, LabelMap.getElem?_ofList_isSome,
    Placed.row, Placed.names_of_defines]

/-- A label has the offset of its node as its address. -/
theorem getElem?_defines {p : Program} (hr : p.LabelsReachable)
    (hn : (Node.labelNames p.nodes).Nodup) {name : String} {address : UInt16} :
    p.defines[name]? = some address ↔
      ∃ n offset label, Node.StandsAt p.nodes n offset ∧ n.label = some label ∧
        label.name = name ∧ address.toNat = offset := by
  unfold defines
  rw [LabelMap.getElem?_ofList_iff (by rwa [Placed.row, Placed.names_of_defines]),
    List.mem_filterMap]
  constructor
  · rintro ⟨q, hq, hd⟩
    obtain ⟨⟨label, hl, hname⟩, rfl⟩ := Placed.define?_eq_some_iff.1 hd
    have hs := Placed.mem_row.1 hq
    refine ⟨q.node, q.start, label, hs, hl, hname, ?_⟩
    exact UInt16.toNat_ofNat_of_lt' (hr _ _ hs (by simp [hl]))
  · rintro ⟨n, offset, label, hs, hl, hname, rfl⟩
    refine ⟨⟨address.toNat, n⟩, Placed.mem_row.2 hs, Placed.define?_eq_some_iff.2 ⟨?_, ?_⟩⟩
    · exact ⟨label, hl, hname⟩
    · simp

end Program

/-! ## Sites -/

namespace Program

theorem mem_fixups {p : Program} {name : String} {s : UInt16} :
    (name, s) ∈ p.fixups ↔
      ∃ n offset, Node.StandsAt p.nodes n offset ∧ n.Uses name ∧
        s = UInt16.ofNat (offset + 2) := by
  unfold fixups
  rw [List.mem_filterMap]
  constructor
  · rintro ⟨q, hq, hf⟩
    obtain ⟨hu, rfl⟩ := Placed.fixup?_eq_some_iff.1 hf
    exact ⟨q.node, q.start, Placed.mem_row.1 hq, hu, rfl⟩
  · rintro ⟨n, offset, hs, hu, rfl⟩
    exact ⟨⟨offset, n⟩, Placed.mem_row.2 hs, Placed.fixup?_eq_some_iff.2 ⟨hu, rfl⟩⟩

end Program

namespace SiteSet

theorem insertSite_of_lt {s : UInt16} {ts : List UInt16} (h : ∀ t ∈ ts, s < t) :
    insertSite s ts = s :: ts := by
  cases ts with
  | nil => rfl
  | cons t ts => rw [insertSite, if_pos (h t List.mem_cons_self)]

/-- A list that ascends is the list of the set made from it. -/
theorem sites_ofList {ss : List UInt16} (h : ss.Pairwise (· < ·)) : (ofList ss).sites = ss := by
  induction ss with
  | nil => rfl
  | cons s ss ih =>
    obtain ⟨hs, hss⟩ := List.pairwise_cons.1 h
    have hf : (ofList (s :: ss)).sites = insertSite s (ofList ss).sites := rfl
    rw [hf, ih hss, insertSite_of_lt hs]

end SiteSet

theorem Program.getElem?_references (p : Program) (name : String) :
    p.image.references[name]? = if LabelMap.usesOf name p.fixups = [] then none
      else some (LabelMap.usesOf name p.fixups) :=
  LabelMap.getElem?_groups p.fixups name

/-- The entry of a label holds the sites at which the label is used. -/
theorem Program.mem_references {p : Program} {name : String} {sites : List UInt16}
    (h : p.image.references[name]? = some sites) {s : UInt16} :
    s ∈ sites ↔ (name, s) ∈ p.fixups := by
  rw [getElem?_references] at h
  split at h
  · cases h
  · cases h
    exact LabelMap.mem_usesOf

theorem Program.exists_references {p : Program} {name : String} {s : UInt16}
    (h : (name, s) ∈ p.fixups) : ∃ sites, p.image.references[name]? = some sites := by
  refine ⟨LabelMap.usesOf name p.fixups, ?_⟩
  rw [getElem?_references, if_neg (List.ne_nil_of_mem (LabelMap.mem_usesOf.2 h))]

/-- A label that no instruction uses has no entry. -/
theorem Program.references_eq_none_iff {p : Program} {name : String} :
    p.image.references[name]? = none ↔ ∀ n ∈ p.nodes, ¬ n.Uses name := by
  constructor
  · intro h n hn hu
    obtain ⟨offset, hs⟩ := Node.exists_standsAt hn
    obtain ⟨sites, he⟩ := exists_references (mem_fixups.2 ⟨n, offset, hs, hu, rfl⟩)
    rw [h] at he
    cases he
  · intro h
    rw [getElem?_references, if_pos]
    apply List.eq_nil_iff_forall_not_mem.2
    intro s hs
    obtain ⟨n, offset, hst, hu, -⟩ := mem_fixups.1 (LabelMap.mem_usesOf.1 hs)
    exact h n hst.mem hu

namespace Program.Compilable

variable {p : Program} (hp : p.Compilable)
include hp

theorem site_fits {n : Node} {offset : Nat} {name : String} (hs : Node.StandsAt p.nodes n offset)
    (hu : n.Uses name) : offset + 4 ≤ Node.span p.nodes ∧ offset + 4 ≤ addressSpace := by
  have h4 := Node.byteLength_of_uses (hp.encodable n hs.mem) hu
  have hf := hs.fits
  have hl := hp.fits
  rw [byteLength_eq_span] at hl
  omega

theorem mem_fixups {name : String} {s : UInt16} :
    (name, s) ∈ p.fixups ↔
      ∃ n offset, Node.StandsAt p.nodes n offset ∧ n.Uses name ∧ s.toNat = offset + 2 := by
  rw [Program.mem_fixups]
  constructor
  · rintro ⟨n, offset, hs, hu, rfl⟩
    have := hp.site_fits hs hu
    refine ⟨n, offset, hs, hu, UInt16.toNat_ofNat_of_lt' ?_⟩
    simp only [addressSpace, UInt16.size] at this ⊢
    omega
  · rintro ⟨n, offset, hs, hu, h⟩
    refine ⟨n, offset, hs, hu, ?_⟩
    rw [← h]
    simp

/-- Sites ascend in the order of the nodes, four bytes apart or more. -/
theorem fixups_apart : p.fixups.Pairwise fun u v => u.2.toNat + 4 ≤ v.2.toNat := by
  unfold fixups
  rw [List.pairwise_filterMap]
  refine (Placed.pairwise_rowFrom 0 p.nodes).imp_of_mem ?_
  intro q r hq hr hqr u hu v hv
  obtain ⟨hun, hus⟩ := Placed.fixup?_eq_some_iff.1 hu
  obtain ⟨hvn, hvs⟩ := Placed.fixup?_eq_some_iff.1 hv
  have hq' := Placed.mem_row.1 hq
  have hr' := Placed.mem_row.1 hr
  have hsq := hp.site_fits hq' hun
  have hsr := hp.site_fits hr' hvn
  have hlen := Node.byteLength_of_uses (hp.encodable _ hq'.mem) hun
  simp only [addressSpace] at hsq hsr
  have h1 : q.site.toNat = q.start + 2 :=
    UInt16.toNat_ofNat_of_lt' (by simp only [UInt16.size]; omega)
  have h2 : r.site.toNat = r.start + 2 :=
    UInt16.toNat_ofNat_of_lt' (by simp only [UInt16.size]; omega)
  rw [hus, hvs, h1, h2]
  omega

theorem sites_ascending : (p.fixups.map Prod.snd).Pairwise (· < ·) := by
  rw [List.pairwise_map]
  refine hp.fixups_apart.imp fun h => ?_
  rw [UInt16.lt_iff_toNat_lt]
  omega

theorem sites_relocations : p.image.relocations.sites = p.fixups.map Prod.snd :=
  SiteSet.sites_ofList hp.sites_ascending

/-- The entry of a label lists the sites of its uses in ascending order. -/
theorem references_of_label {name : String} {sites : List UInt16}
    (h : p.image.references[name]? = some sites) :
    sites.Pairwise (· < ·) ∧ ∀ s, s ∈ sites ↔
      ∃ n offset, Node.StandsAt p.nodes n offset ∧ n.Uses name ∧ s.toNat = offset + 2 := by
  constructor
  · rw [getElem?_references] at h
    split at h
    · cases h
    · cases h
      exact hp.sites_ascending.sublist (List.filter_sublist.map _)
  · intro s
    rw [mem_references h, hp.mem_fixups]

theorem mem_relocations {s : UInt16} : s ∈ p.image.relocations.sites ↔
    ∃ (name : String) (sites : List UInt16), p.image.references[name]? = some sites ∧ s ∈ sites := by
  rw [hp.sites_relocations, List.mem_map]
  constructor
  · rintro ⟨⟨name, t⟩, hm, rfl⟩
    obtain ⟨sites, hs⟩ := exists_references hm
    exact ⟨name, sites, hs, (mem_references hs).2 hm⟩
  · rintro ⟨name, sites, hs, hm⟩
    exact ⟨(name, s), (mem_references hs).1 hm, rfl⟩

theorem references_disjoint {name name' : String} {sites sites' : List UInt16}
    (h : p.image.references[name]? = some sites) (h' : p.image.references[name']? = some sites')
    (hne : name ≠ name') : ∀ s ∈ sites, s ∉ sites' := by
  intro s hs hs'
  have hnd : (p.fixups.map Prod.snd).Nodup :=
    hp.sites_ascending.imp fun hlt => UInt16.ne_of_lt hlt
  have he := List.inj_on_of_nodup_map hnd ((mem_references h).1 hs) ((mem_references h').1 hs') rfl
  exact hne (congrArg Prod.fst he)

theorem site_inside {s : UInt16} (h : s ∈ p.image.relocations.sites) :
    s.toNat + 1 < p.image.bytes.length := by
  rw [hp.sites_relocations, List.mem_map] at h
  obtain ⟨⟨name, t⟩, hm, rfl⟩ := h
  obtain ⟨n, offset, hst, hu, ht⟩ := hp.mem_fixups.1 hm
  have := (hp.site_fits hst hu).1
  rw [length_bytes_image]
  simp only
  omega

end Program.Compilable

/-! ## Addresses in the image -/

/-- The output of a node stands at its offset in the output of all nodes. -/
theorem Node.StandsAt.output {nodes : List Node} {n : Node} {offset : Nat}
    (h : StandsAt nodes n offset) (defines : LabelMap UInt16) :
    ∃ front back, nodes.flatMap (Node.output defines) = front ++ n.output defines ++ back ∧
      front.length = offset := by
  obtain ⟨before, after, rfl, rfl⟩ := h
  refine ⟨before.flatMap (Node.output defines), after.flatMap (Node.output defines), ?_, ?_⟩
  · simp
  · exact Node.length_outputs defines before

/-- A label that an encodable node uses has an address. -/
theorem Node.Encodable.getElem?_of_uses {defines : LabelMap UInt16} {n : Node} {name : String}
    (he : n.Encodable defines) (hu : n.Uses name) :
    defines[name]? = some (defines.getD name 0) := by
  obtain ⟨i, location, hc, hi⟩ := hu
  have hm := (he i hc).1 name location hi
  obtain ⟨address, ha⟩ := Option.isSome_iff_exists.1 (Std.ExtTreeMap.mem_iff_isSome_getElem?.1 hm)
  rw [Std.ExtTreeMap.getD_eq_getD_getElem?, ha]
  rfl

/-- An instruction with a label as its immediate holds the address of the label
behind its word. -/
theorem Instruction.toBytes_resolved {i : Instruction Immediate} {name : String}
    {location : Location} (hf : i.Fits) (hi : i.immediate = some (.label name location))
    (defines : LabelMap UInt16) : (i.resolved defines).toBytes =
      Word.toBytes i.word ++ Word.toBytes (defines.getD name 0) := by
  have hw : (i.resolved defines).word = i.word := rfl
  rw [toBytes_of_immediate (fits_resolved.2 hf), hw]
  simp [resolved, hi, Immediate.value]

/-- The word of an instruction that uses a label is the same for all addresses. -/
theorem Node.Encodable.output_of_uses {defines : LabelMap UInt16} {n : Node} {name : String}
    (he : n.Encodable defines) (hu : n.Uses name) :
    ∃ w, ∀ addresses : LabelMap UInt16,
      n.output addresses = Word.toBytes w ++ Word.toBytes (addresses.getD name 0) := by
  obtain ⟨i, location, hc, hi⟩ := hu
  refine ⟨i.word, fun addresses => ?_⟩
  simp only [output, hc]
  exact Instruction.toBytes_resolved (he i hc).2 hi addresses

/-- What an image says about the nodes that it lays out. -/
structure Image.Describes (image : Image) (nodes : List Node) : Prop where
  /-- The bytes are those of the nodes in their order. -/
  bytes_eq : image.bytes = nodes.flatMap (Node.output image.defines)
  /-- Every label that is used has an address, which stands in the output. -/
  linked : ∀ n ∈ nodes, ∀ name, n.Uses name → name ∈ image.defines
  /-- The labels are those of the nodes, each at the offset of its node. -/
  defines_iff : ∀ name address, image.defines[name]? = some address ↔
    ∃ n offset label, Node.StandsAt nodes n offset ∧ n.label = some label ∧
      label.name = name ∧ address.toNat = offset
  /-- The entry of a label lists the words behind the instruction words of its
  uses, in ascending order. -/
  references_of : ∀ (name : String) (sites : List UInt16), image.references[name]? = some sites →
    sites.Pairwise (· < ·) ∧ ∀ s, s ∈ sites ↔
      ∃ n offset, Node.StandsAt nodes n offset ∧ n.Uses name ∧ s.toNat = offset + 2
  /-- Just the labels that are not used have no entry. -/
  unreferenced_iff : ∀ name, image.references[name]? = none ↔ ∀ n ∈ nodes, ¬ n.Uses name
  /-- The relocations are the sites of all entries. -/
  relocations_iff : ∀ s, s ∈ image.relocations.sites ↔
    ∃ (name : String) (sites : List UInt16), image.references[name]? = some sites ∧ s ∈ sites
  /-- No two entries share a site. -/
  disjoint : ∀ (name name' : String) (sites sites' : List UInt16),
    image.references[name]? = some sites → image.references[name']? = some sites' →
    name ≠ name' → ∀ s ∈ sites, s ∉ sites'
  /-- The word at a site is in the image. -/
  inside : ∀ s ∈ image.relocations.sites, s.toNat + 1 < image.bytes.length
  /-- Sites are four bytes apart or more. -/
  apart : image.relocations.sites.Pairwise fun s t => s.toNat + 4 ≤ t.toNat
  /-- The word at a site is the address of the label. -/
  holds : ∀ (name : String) (sites : List UInt16), image.references[name]? = some sites →
    ∀ s ∈ sites, ∃ address, image.defines[name]? = some address ∧
      (image.bytes.drop s.toNat).take 2 = Word.toBytes address

namespace Program.Compilable

variable {p : Program} (hp : p.Compilable)
include hp

/-- The word at a site is the address of the label, whatever addresses the nodes are laid
out with. -/
theorem output_at_site {name : String} {sites : List UInt16}
    (h : p.image.references[name]? = some sites) {s : UInt16} (hs : s ∈ sites)
    (addresses : LabelMap UInt16) :
    ((p.nodes.flatMap (Node.output addresses)).drop s.toNat).take 2 =
      Word.toBytes (addresses.getD name 0) := by
  obtain ⟨n, offset, hst, hu, hso⟩ := ((hp.references_of_label h).2 s).1 hs
  obtain ⟨w, ho⟩ := (hp.encodable n hst.mem).output_of_uses hu
  obtain ⟨front, back, hb, hlen⟩ := hst.output addresses
  have hbytes : p.nodes.flatMap (Node.output addresses) =
      (front ++ Word.toBytes w) ++ (Word.toBytes (addresses.getD name 0) ++ back) := by
    rw [hb, ho]
    simp
  have hfront : (front ++ Word.toBytes w).length = s.toNat := by
    rw [List.length_append, Word.length_toBytes, hlen, hso]
  rw [hbytes, ← hfront, List.drop_left, List.take_left' (Word.length_toBytes _)]

/-- A label with an entry has an address. -/
theorem getElem?_defines_of_references {name : String} {sites : List UInt16}
    (h : p.image.references[name]? = some sites) {s : UInt16} (hs : s ∈ sites) :
    p.defines[name]? = some (p.defines.getD name 0) := by
  obtain ⟨n, offset, hst, hu, -⟩ := ((hp.references_of_label h).2 s).1 hs
  exact (hp.encodable n hst.mem).getElem?_of_uses hu

theorem word_at_site {name : String} {sites : List UInt16}
    (h : p.image.references[name]? = some sites) {s : UInt16} (hs : s ∈ sites) :
    ∃ address, p.image.defines[name]? = some address ∧
      (p.image.bytes.drop s.toNat).take 2 = Word.toBytes address :=
  ⟨p.defines.getD name 0, hp.getElem?_defines_of_references h hs, hp.output_at_site h hs p.defines⟩

end Program.Compilable

/-- A compiled image describes its nodes. -/
theorem a_compiled_image_describes_its_nodes (p : Program) (image : Image)
    (hn : (Node.labelNames p.nodes).Nodup) (h : p.compile = .ok image) :
    image.Describes p.nodes := by
  obtain ⟨hp, rfl⟩ := Program.compile_eq_ok_iff.1 h
  refine ⟨rfl, ?_, ?_, ?_, ?_, ?_, ?_, ?_, ?_, ?_⟩
  · rintro n hm name ⟨i, location, hc, hi⟩
    exact (hp.encodable n hm i hc).1 name location hi
  · intro name address
    exact Program.getElem?_defines hp.labels_reachable hn
  · intro name sites hs
    exact hp.references_of_label hs
  · intro name
    exact Program.references_eq_none_iff
  · intro s
    exact hp.mem_relocations
  · intro name name' sites sites' hs hs' hne
    exact hp.references_disjoint hs hs' hne
  · intro s hs
    exact hp.site_inside hs
  · rw [hp.sites_relocations, List.pairwise_map]
    exact hp.fixups_apart
  · intro name sites hs s hm
    exact hp.word_at_site hs hm

/-- A jump forwards over a byte of data and a jump back, with both labels. -/
def twoJumps : Program := .ofNodes [
  ⟨.instruction ⟨.jump, none, none, some (.label "end" .start)⟩, some ⟨"start", .start⟩, .start⟩,
  ⟨.binary [7], none, .start⟩,
  ⟨.instruction ⟨.jump, none, none, some (.label "start" .start)⟩, some ⟨"end", .start⟩, .start⟩]

theorem the_image_of_two_jumps_describes_them :
    (Node.labelNames twoJumps.nodes).Nodup ∧ twoJumps.compile = .ok twoJumps.image ∧
      twoJumps.image.Describes twoJumps.nodes ∧
      twoJumps.image.bytes = [0xDE, 0xAA, 0, 5, 7, 0xDE, 0xAA, 0, 0] ∧
      twoJumps.image.references["end"]? = some [2] ∧
      twoJumps.image.relocations.sites = [2, 7] := by
  have hn : (Node.labelNames twoJumps.nodes).Nodup := by decide
  have hc : twoJumps.compile = .ok twoJumps.image := by decide +kernel
  refine ⟨hn, hc, a_compiled_image_describes_its_nodes twoJumps twoJumps.image hn hc, ?_, ?_, ?_⟩
  · decide +kernel
  · decide +kernel
  · decide +kernel

end WordMachine
