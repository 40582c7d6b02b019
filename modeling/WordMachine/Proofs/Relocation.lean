-- Relocated images: moving an image is the same as laying out its nodes with
-- moved labels, so the machine finds each instruction where it was loaded,
-- with the moved address of its label.
import WordMachine.Image.Relocation
import WordMachine.Machine.Step
import WordMachine.Proofs.Fixups
import WordMachine.Proofs.Loading

namespace WordMachine

/-! ## Moving one word -/

namespace Image

theorem set_word (front back : Bytes) (w v : UInt16) :
    ((front ++ (Word.toBytes w ++ back)).set front.length (Word.high v)).set (front.length + 1)
      (Word.low v) = front ++ (Word.toBytes v ++ back) := by
  simp [Word.toBytes, List.set_append_right]

/-- A patch at the end of `front` moves the word that follows. -/
theorem patch_append {front back : Bytes} {w base site : UInt16} (h : site.toNat = front.length) :
    patch base (front ++ (Word.toBytes w ++ back)).toArray site =
      (front ++ (Word.toBytes (w + base) ++ back)).toArray := by
  have hsize : front.length + 1 < (front ++ (Word.toBytes w ++ back)).toArray.size := by
    simp [Word.toBytes]
  have hhi : (front ++ (Word.toBytes w ++ back)).toArray[front.length] = Word.high w := by
    simp [Word.toBytes]
  have hlo : (front ++ (Word.toBytes w ++ back)).toArray[front.length + 1] = Word.low w := by
    simp [Word.toBytes]
  unfold patch
  simp only [h]
  rw [dif_pos hsize, hhi, hlo, Word.ofBytes_high_low, List.setIfInBounds_toArray,
    List.setIfInBounds_toArray, set_word]

end Image

/-! ## Moving all words -/

/-- The addresses of labels in an image that is loaded at `base`. -/
def LabelMap.moved (defines : LabelMap UInt16) (base : UInt16) : LabelMap UInt16 :=
  defines.map fun _ address => address + base

theorem LabelMap.getElem?_moved (defines : LabelMap UInt16) (base : UInt16) (name : String) :
    (defines.moved base)[name]? = defines[name]?.map (· + base) := by
  rw [moved, Std.ExtTreeMap.getElem?_map]

theorem LabelMap.getD_moved {defines : LabelMap UInt16} {name : String}
    (h : defines[name]? = some (defines.getD name 0)) (base : UInt16) :
    (defines.moved base).getD name 0 = defines.getD name 0 + base := by
  rw [Std.ExtTreeMap.getD_eq_getD_getElem?, getElem?_moved, h]
  rfl

namespace LabelMap

theorem moved_zero (defines : LabelMap UInt16) : defines.moved 0 = defines := by
  apply Std.ExtTreeMap.ext_getElem?
  intro name
  rw [getElem?_moved]
  cases defines[name]? with
  | none => rfl
  | some address => simp

theorem moved_moved (defines : LabelMap UInt16) (a b : UInt16) :
    (defines.moved a).moved b = defines.moved (a + b) := by
  apply Std.ExtTreeMap.ext_getElem?
  intro name
  rw [getElem?_moved, getElem?_moved, getElem?_moved, Option.map_map]
  congr 1
  funext address
  exact UInt16.add_assoc address a b

theorem mem_moved {defines : LabelMap UInt16} {base : UInt16} {name : String} :
    name ∈ defines.moved base ↔ name ∈ defines := by
  unfold moved
  exact Std.ExtTreeMap.mem_map

end LabelMap

theorem Node.Encodable.moved {defines : LabelMap UInt16} {n : Node} (h : n.Encodable defines)
    (base : UInt16) : n.Encodable (defines.moved base) := by
  intro i hc
  obtain ⟨hl, hf⟩ := h i hc
  refine ⟨?_, hf⟩
  intro name location hi
  exact LabelMap.mem_moved.2 (hl name location hi)

theorem Node.output_of_not_uses {n : Node} (h : ∀ name, ¬ n.Uses name)
    (defines defines' : LabelMap UInt16) : n.output defines = n.output defines' := by
  unfold output
  split
  · rfl
  · rename_i i hc
    have hi : i.resolved defines = i.resolved defines' := by
      unfold Instruction.resolved
      congr 1
      cases himm : i.immediate with
      | none => rfl
      | some imm =>
        cases imm with
        | constant v => rfl
        | label name location => exact absurd ⟨i, location, hc, himm⟩ (h name)
    rw [hi]

/-- Patching the sites of nodes, one after the other, gives the output of the
nodes with moved labels. -/
theorem foldl_patch {defines : LabelMap UInt16} (base : UInt16) {nodes : List Node}
    (he : ∀ n ∈ nodes, n.Encodable defines) (front : Bytes)
    (hlen : front.length + Node.span nodes ≤ addressSpace) :
    (((Placed.rowFrom [] front.length nodes).filterMap Placed.fixup?).map Prod.snd).foldl
        (Image.patch base) (front ++ nodes.flatMap (Node.output defines)).toArray =
      (front ++ nodes.flatMap (Node.output (defines.moved base))).toArray := by
  induction nodes generalizing front with
  | nil => simp [Placed.rowFrom]
  | cons n ns ih =>
    have hn := he n List.mem_cons_self
    have hns : ∀ m ∈ ns, m.Encodable defines := fun m hm => he m (List.mem_cons_of_mem _ hm)
    have hnext : ∀ d : LabelMap UInt16,
        (front ++ n.output d).length = front.length + n.byteLength := by
      intro d
      rw [List.length_append, Node.length_output]
    rw [Node.span_cons] at hlen
    -- The rest is patched behind the output of the first node, moved or not.
    have hrest := ih hns (front ++ n.output (defines.moved base)) (by rw [hnext]; omega)
    rw [hnext, List.append_assoc, List.append_assoc] at hrest
    rw [Placed.rowFrom_cons, List.filterMap_cons, List.flatMap_cons, List.flatMap_cons]
    cases hf : (⟨front.length, n⟩ : Placed).fixup? with
    | none =>
      rw [Node.output_of_not_uses (Placed.fixup?_eq_none_iff.1 hf) defines (defines.moved base)]
      exact hrest
    | some u =>
      obtain ⟨name, s⟩ := u
      obtain ⟨hu, hs⟩ := Placed.fixup?_eq_some_iff.1 hf
      have h4 := Node.byteLength_of_uses hn hu
      have hd := LabelMap.getD_moved (hn.getElem?_of_uses hu) base
      have hsite : s.toNat = (front ++ Word.toBytes (0 : UInt16)).length := by
        rw [hs, Placed.site, List.length_append, Word.length_toBytes]
        exact UInt16.toNat_ofNat_of_lt' (by simp only [addressSpace, UInt16.size] at hlen ⊢; omega)
      obtain ⟨w, ho⟩ := hn.output_of_uses hu
      have hsplit : ∀ (d : LabelMap UInt16) (rest : Bytes), front ++ (n.output d ++ rest) =
          front ++ Word.toBytes w ++ (Word.toBytes (d.getD name 0) ++ rest) := by
        intro d rest
        rw [ho]
        simp
      simp only [List.map_cons, List.foldl_cons]
      rw [hsplit, Image.patch_append (by rw [hsite]; simp [Word.length_toBytes]), ← hd, ← hsplit]
      exact hrest

/-! ## Images at a base -/

/-- The image that the nodes lay out for loading at `base`. -/
def Program.imageAt (p : Program) (base : UInt16) : Image :=
  { p.image with
    bytes := p.nodes.flatMap (Node.output (p.defines.moved base))
    defines := p.defines.moved base }

theorem Program.imageAt_zero (p : Program) : p.imageAt 0 = p.image := by
  unfold imageAt
  rw [LabelMap.moved_zero]
  rfl

namespace Program.Compilable

variable {p : Program} (hp : p.Compilable)
include hp

/-- An image at one base is moved to the image at the sum of both bases. -/
theorem relocate_imageAt (a b : UInt16) : (p.imageAt a).relocate b = p.imageAt (a + b) := by
  have hlen : ([] : Bytes).length + Node.span p.nodes ≤ addressSpace := by
    have := hp.fits
    rw [byteLength_eq_span] at this
    simpa using this
  have he : ∀ n ∈ p.nodes, n.Encodable (p.defines.moved a) :=
    fun n hn => (hp.encodable n hn).moved a
  have hf := foldl_patch b he [] hlen
  simp only [List.nil_append, List.length_nil, LabelMap.moved_moved] at hf
  have hbytes : ((p.imageAt a).relocations.sites.foldl (Image.patch b)
      (p.imageAt a).bytes.toArray).toList = (p.imageAt (a + b)).bytes := by
    rw [show (p.imageAt a).relocations.sites = p.fixups.map Prod.snd from hp.sites_relocations]
    exact congrArg Array.toList hf
  have hdefines : (p.imageAt a).defines.moved b = (p.imageAt (a + b)).defines :=
    LabelMap.moved_moved p.defines a b
  unfold Image.relocate
  rw [hbytes]
  exact congrArg (fun d => { p.imageAt (a + b) with defines := d }) hdefines

theorem relocate_image (base : UInt16) : p.image.relocate base = p.imageAt base := by
  rw [← imageAt_zero, hp.relocate_imageAt, UInt16.zero_add]

/-- A relocated image is the layout of its nodes with moved labels. -/
theorem bytes_relocate (base : UInt16) : (p.image.relocate base).bytes =
    p.nodes.flatMap (Node.output (p.image.relocate base).defines) := by
  rw [hp.relocate_image]
  rfl

end Program.Compilable

/-! ## Fetching -/

namespace Machine

variable {δ : Type}

/-- The machine with an image in its memory from `base` on, about to execute
what stands `offset` bytes behind its start. -/
def loaded (m : Machine δ) (bytes : Bytes) (base : UInt16) (offset : Nat) : Machine δ :=
  { m with
    memory := m.memory.load bytes base
    pc := UInt16.ofNat (base.toNat + offset) }

/-- The instruction whose bytes stand at the program counter is fetched, wherever
the image was loaded. -/
theorem current_loaded {front back : Bytes} {i : Instruction UInt16} (hf : i.Fits)
    (hlen : (front ++ i.toBytes ++ back).length ≤ 65536) (m : Machine δ) (base : UInt16) :
    (m.loaded (front ++ i.toBytes ++ back) base front.length).current = .ok i := by
  have hd := Instruction.decode_word hf
  have hb := Instruction.toBytes_of_immediate hf
  have hpc : UInt16.ofNat (base.toNat + front.length) = base + UInt16.ofNat front.length := by
    rw [UInt16.ofNat_add, UInt16.ofNat_toNat]
  have hword : front ++ i.toBytes ++ back = front ++ (Word.toBytes i.word ++
      ((i.immediate.map Word.toBytes).getD [] ++ back)) := by
    rw [hb]
    simp
  have hread := Memory.readWord_load (hword ▸ hlen) m.memory base
  rw [← hword] at hread
  unfold current loaded
  simp only [hpc, hread, hd]
  obtain ⟨op, a, b, imm⟩ := i
  obtain ⟨-, -, hi⟩ := hf
  cases imm with
  | none =>
    simp only [Option.isSome_none] at hi
    simp [bind, Except.bind, pure, Except.pure, ← hi]
  | some v =>
    simp only [Option.isSome_some] at hi
    -- The immediate stands two bytes behind the start of the instruction.
    have himm : front ++ (⟨op, a, b, some v⟩ : Instruction UInt16).toBytes ++ back =
        (front ++ Word.toBytes (⟨op, a, b, some v⟩ : Instruction UInt16).word) ++
          (Word.toBytes v ++ back) := by
      rw [hb]
      simp
    have hnext := Memory.readWord_load (himm ▸ hlen) m.memory base
    rw [← himm, List.length_append, Word.length_toBytes, UInt16.ofNat_add, ← UInt16.add_assoc]
      at hnext
    have htwo : UInt16.ofNat 2 = 2 := rfl
    rw [htwo] at hnext
    simp only [bind, Except.bind, pure, Except.pure, ← hi, if_true, hnext]

end Machine

/-! ## Programs in memory -/

/-- What the machine finds at the start of an instruction: its operation and its
registers, and as its immediate the number, or the address of the label in the
place to which the image was moved. -/
structure Instruction.FetchedAs (defines : LabelMap UInt16) (base : UInt16)
    (i : Instruction Immediate) (j : Instruction UInt16) : Prop where
  opcode : j.opcode = i.opcode
  a : j.a = i.a
  b : j.b = i.b
  takes : j.immediate.isSome = i.opcode.shape.takesImmediate
  absent : i.immediate = none → j.immediate = none
  constant : ∀ value, i.immediate = some (.constant value) → j.immediate = some value
  label : ∀ name location, i.immediate = some (.label name location) →
    ∃ address, defines[name]? = some address ∧ j.immediate = some (address + base)

/-- The machine finds each instruction of a program where it was loaded, also when
the program fills the memory or goes on at address zero. -/
theorem a_loaded_instruction_is_found_again {δ : Type} (p : Program) (image : Image)
    (base : UInt16) (m : Machine δ) (n : Node) (i : Instruction Immediate) (offset : Nat)
    (h : p.compile = .ok image) (hs : Node.StandsAt p.nodes n offset)
    (hc : n.content = .instruction i) :
    ∃ j, (m.loaded (image.relocate base).bytes base offset).current = .ok j ∧
      i.FetchedAs image.defines base j := by
  obtain ⟨hp, rfl⟩ := Program.compile_eq_ok_iff.1 h
  obtain ⟨hl, hf⟩ := hp.encodable n hs.mem i hc
  have ho : n.output (p.image.relocate base).defines =
      (i.resolved (p.image.relocate base).defines).toBytes := by
    unfold Node.output
    rw [hc]
  obtain ⟨front, back, hb, rfl⟩ := hs.output (p.image.relocate base).defines
  rw [ho, ← hp.bytes_relocate] at hb
  have hlen : (p.image.relocate base).bytes.length ≤ 65536 := by
    rw [hp.bytes_relocate, Node.length_outputs, ← Program.byteLength_eq_span]
    exact hp.fits
  refine ⟨i.resolved (p.image.relocate base).defines, ?_, rfl, rfl, rfl, ?_, ?_, ?_, ?_⟩
  · rw [hb] at hlen ⊢
    exact Machine.current_loaded (Instruction.fits_resolved.2 hf) hlen m base
  · exact (Instruction.fits_resolved.2 hf).2.2
  · intro hi
    simp [Instruction.resolved, hi]
  · intro value hi
    simp [Instruction.resolved, hi, Immediate.value]
  · intro name location hi
    have hd := (hp.encodable n hs.mem).getElem?_of_uses ⟨i, location, hc, hi⟩
    refine ⟨p.defines.getD name 0, hd, ?_⟩
    simp only [Instruction.resolved, hi, Option.map_some, Immediate.value]
    exact congrArg some (LabelMap.getD_moved hd base)

/-- Two jumps are found again at a base at which the first of them ends beyond the
last address. -/
theorem two_jumps_are_found_around_the_end_of_memory :
    ∃ j, ((Machine.boot .zeroed ()).loaded (twoJumps.image.relocate 0xFFFE).bytes 0xFFFE 0).current =
        .ok j ∧
      Instruction.FetchedAs twoJumps.image.defines 0xFFFE
        ⟨.jump, none, none, some (.label "end" .start)⟩ j := by
  have hc : twoJumps.compile = .ok twoJumps.image := by decide +kernel
  exact a_loaded_instruction_is_found_again twoJumps twoJumps.image 0xFFFE (.boot .zeroed ())
    _ _ 0 hc ⟨[], _, rfl, rfl⟩ rfl

end WordMachine
