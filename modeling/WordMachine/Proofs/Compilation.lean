-- What compilation accepts and what it makes. A program is compilable when
-- its bytes and its labels have addresses, its labels are defined and its
-- operands fit. Its image then holds the output of its nodes in their order.
import WordMachine.Image.Compilation
import WordMachine.Proofs.Encoding
import WordMachine.Proofs.Layout

namespace WordMachine

/-! ## The output of a node -/

/-- The number that an immediate stands for. -/
def Immediate.value (defines : LabelMap UInt16) : Immediate → UInt16
  | constant value => value
  | label name _ => defines.getD name 0

/-- The instruction with a number in place of its label. -/
def Instruction.resolved (defines : LabelMap UInt16) (i : Instruction Immediate) :
    Instruction UInt16 :=
  ⟨i.opcode, i.a, i.b, i.immediate.map (Immediate.value defines)⟩

/-- The bytes that a node puts into the image. -/
def Node.output (defines : LabelMap UInt16) (n : Node) : Bytes :=
  match n.content with
  | .binary bytes => bytes
  | .instruction i => (i.resolved defines).toBytes

/-- The label that an instruction uses, if it uses one, has an address. -/
def Instruction.Linked (defines : LabelMap UInt16) (i : Instruction Immediate) : Prop :=
  ∀ name location, i.immediate = some (.label name location) → name ∈ defines

/-- The node is an instruction with the label as its immediate. -/
def Node.Uses (n : Node) (name : String) : Prop :=
  ∃ i location, n.content = .instruction i ∧ i.immediate = some (.label name location)

/-- An instruction has operands that fit, and its label has an address. -/
def Node.Encodable (defines : LabelMap UInt16) (n : Node) : Prop :=
  ∀ i, n.content = .instruction i → i.Linked defines ∧ i.Fits

theorem Instruction.fits_resolved {defines : LabelMap UInt16} {i : Instruction Immediate} :
    (i.resolved defines).Fits ↔ i.Fits := by
  unfold Fits resolved
  rw [Option.isSome_map]

theorem Node.length_output (defines : LabelMap UInt16) (n : Node) :
    (n.output defines).length = n.byteLength := by
  unfold output byteLength
  cases n.content with
  | binary bytes => rfl
  | instruction i => exact Instruction.length_toBytes (i.resolved defines)

theorem Node.length_outputs (defines : LabelMap UInt16) (nodes : List Node) :
    (nodes.flatMap (Node.output defines)).length = span nodes := by
  induction nodes with
  | nil => rfl
  | cons n ns ih => rw [List.flatMap_cons, List.length_append, ih, length_output, span_cons]

/-- The offset of the word for an address, if the instruction at `start` has one, is a word. -/
def Instruction.HasSite (start : Nat) (i : Instruction Immediate) : Prop :=
  ∀ name location, i.immediate = some (.label name location) → start + 2 < addressSpace

/-- The offset of the word for an address, if the node has one, is a word. -/
def Placed.HasSite (q : Placed) : Prop :=
  ∀ i, q.node.content = .instruction i → i.HasSite q.start

/-- An instruction that takes an immediate takes four bytes. -/
theorem Instruction.byteLength_of_immediate {ι : Type} {i : Instruction ι} {imm : ι} (hf : i.Fits)
    (hi : i.immediate = some imm) : i.byteLength = 4 := by
  obtain ⟨-, -, ht⟩ := hf
  rw [hi, Option.isSome_some] at ht
  simp [byteLength, Opcode.byteLength, Shape.byteLength, ← ht]

/-- An instruction that uses a label takes four bytes. -/
theorem Node.byteLength_of_uses {defines : LabelMap UInt16} {n : Node} {name : String}
    (he : n.Encodable defines) (hu : n.Uses name) : n.byteLength = 4 := by
  obtain ⟨i, location, hc, hi⟩ := hu
  unfold byteLength
  rw [hc]
  exact Instruction.byteLength_of_immediate (he i hc).2 hi

/-- A node that fits in the address space has room for the address of its label. -/
theorem Placed.hasSite_of_fits {defines : LabelMap UInt16} {q : Placed}
    (he : q.node.Encodable defines) (hf : q.start + q.node.byteLength ≤ addressSpace) :
    q.HasSite := by
  intro i hc name location hi
  have h4 := Node.byteLength_of_uses he ⟨i, location, hc, hi⟩
  omega

/-! ## Encoding -/

theorem Immediate.resolve_eq_ok_iff {defines : LabelMap UInt16} {start : Nat} {imm : Immediate}
    {v : UInt16} :
    imm.resolve defines start = .ok v ↔
      (∀ name location, imm = .label name location →
        name ∈ defines ∧ start + 2 < addressSpace) ∧ v = imm.value defines := by
  cases imm with
  | constant w => simp [resolve, Immediate.value, eq_comm]
  | label name location =>
    simp only [resolve, Immediate.value, Std.ExtTreeMap.getD_eq_getD_getElem?]
    have hmem : name ∈ defines ↔ defines[name]?.isSome :=
      Std.ExtTreeMap.mem_iff_isSome_getElem?
    cases h : defines[name]? with
    | none =>
      have hn : name ∉ defines := by rw [hmem, h]; simp
      simp [hn]
    | some address =>
      have hm : name ∈ defines := by rw [hmem, h]; rfl
      by_cases hs : start + 2 < addressSpace
      · simp [hm, hs, eq_comm]
      · simp [hs]

theorem Instruction.mapM_resolve_eq_ok_iff {defines : LabelMap UInt16} {start : Nat}
    {i : Instruction Immediate} {v : Option UInt16} :
    i.immediate.mapM (Immediate.resolve defines start) = .ok v ↔
      (i.Linked defines ∧ i.HasSite start) ∧ v = i.immediate.map (Immediate.value defines) := by
  have hboth : i.Linked defines ∧ i.HasSite start ↔ ∀ name location,
      i.immediate = some (.label name location) → name ∈ defines ∧ start + 2 < addressSpace := by
    unfold Linked HasSite
    exact ⟨fun h name location hi => ⟨h.1 name location hi, h.2 name location hi⟩,
      fun h => ⟨fun name location hi => (h name location hi).1,
        fun name location hi => (h name location hi).2⟩⟩
  rw [hboth]
  cases i.immediate with
  | none => simp [pure, Except.pure, eq_comm]
  | some imm =>
    simp only [Option.mapM_some, Option.some.injEq, Option.map_some]
    cases hr : imm.resolve defines start with
    | error e =>
      have hn : ∀ w, ¬ ((∀ name location, imm = .label name location →
          name ∈ defines ∧ start + 2 < addressSpace) ∧ w = imm.value defines) := by
        intro w hw
        rw [← Immediate.resolve_eq_ok_iff, hr] at hw
        cases hw
      constructor
      · intro h
        cases h
      · rintro ⟨h, rfl⟩
        exact absurd ⟨h, rfl⟩ (hn _)
    | ok w =>
      obtain ⟨hm, rfl⟩ := Immediate.resolve_eq_ok_iff.1 hr
      constructor
      · intro h
        cases h
        exact ⟨hm, rfl⟩
      · rintro ⟨-, rfl⟩
        rfl

theorem Instruction.encode_eq_ok_iff {defines : LabelMap UInt16} {start : Nat}
    {location : Location} {i : Instruction Immediate} {bytes : Bytes} :
    i.encode defines start location = .ok bytes ↔
      ((i.Linked defines ∧ i.Fits) ∧ i.HasSite start) ∧ bytes = (i.resolved defines).toBytes := by
  unfold Instruction.encode
  cases hr : i.immediate.mapM (Immediate.resolve defines start) with
  | error e =>
    have hn : ¬ (i.Linked defines ∧ i.HasSite start) := by
      intro hl
      rw [mapM_resolve_eq_ok_iff.2 ⟨hl, rfl⟩] at hr
      cases hr
    constructor
    · intro h
      cases h
    · rintro ⟨⟨⟨hl, -⟩, hs⟩, -⟩
      exact absurd ⟨hl, hs⟩ hn
  | ok v =>
    obtain ⟨⟨hl, hs⟩, rfl⟩ := mapM_resolve_eq_ok_iff.1 hr
    have hres : (⟨i.opcode, i.a, i.b, i.immediate.map (Immediate.value defines)⟩ :
        Instruction UInt16) = i.resolved defines := rfl
    simp only [hres]
    cases hc : (i.resolved defines).check with
    | error e =>
      have hn : ¬ i.Fits := by
        intro hf
        rw [check_eq_ok_iff.2 ⟨fits_resolved.2 hf, rfl⟩] at hc
        cases hc
      simp [hn]
    | ok j =>
      obtain ⟨hf, rfl⟩ := check_eq_ok_iff.1 hc
      simp [hl, hs, fits_resolved.1 hf, eq_comm]

theorem Placed.encode_eq_ok_iff {defines : LabelMap UInt16} {q : Placed} {bytes : Bytes} :
    q.encode defines = .ok bytes ↔
      (q.node.Encodable defines ∧ q.HasSite) ∧ bytes = q.node.output defines := by
  unfold Placed.encode Node.Encodable HasSite Node.output
  cases q.node.content with
  | binary b => simp [eq_comm]
  | instruction i =>
    simp only [Instruction.encode_eq_ok_iff, Content.instruction.injEq]
    constructor
    · rintro ⟨⟨h, hs⟩, hb⟩
      exact ⟨⟨fun j hj => hj ▸ h, fun j hj => hj ▸ hs⟩, hb⟩
    · rintro ⟨⟨h, hs⟩, hb⟩
      exact ⟨⟨h i rfl, hs i rfl⟩, hb⟩

/-- A map that can fail on each item succeeds when no item fails. -/
theorem mapM_eq_ok_iff {α β ε : Type} {f : α → Except ε β} {p : α → Prop} {g : α → β}
    (hf : ∀ a b, f a = .ok b ↔ p a ∧ b = g a) (as : List α) (bs : List β) :
    as.mapM f = .ok bs ↔ (∀ a ∈ as, p a) ∧ bs = as.map g := by
  induction as generalizing bs with
  | nil => simp [pure, Except.pure, eq_comm]
  | cons a as ih =>
    rw [List.mapM_cons]
    cases ha : f a with
    | error e =>
      have hp : ¬ p a := by
        intro hp
        rw [(hf a _).2 ⟨hp, rfl⟩] at ha
        cases ha
      simp [bind, Except.bind, hp]
    | ok b =>
      obtain ⟨hp, rfl⟩ := (hf a b).1 ha
      cases has : as.mapM f with
      | error e =>
        have hn : ¬ ∀ x ∈ as, p x := by
          intro h
          rw [(ih _).2 ⟨h, rfl⟩] at has
          cases has
        simp [bind, Except.bind, hn]
      | ok cs =>
        obtain ⟨hall, rfl⟩ := (ih cs).1 has
        constructor
        · intro h
          cases h
          exact ⟨List.forall_mem_cons.2 ⟨hp, hall⟩, rfl⟩
        · rintro ⟨-, rfl⟩
          rfl

/-- Nodes that fit in the address space have bytes just if they are encodable. -/
theorem mapM_encode_eq_ok_iff {defines : LabelMap UInt16} {nodes : List Node}
    (hf : Node.span nodes ≤ addressSpace) (chunks : List Bytes) :
    (Placed.row nodes).mapM (Placed.encode defines) = .ok chunks ↔
      (∀ n ∈ nodes, n.Encodable defines) ∧ chunks = nodes.map (Node.output defines) := by
  have hq : ∀ (q : Placed) (b : Bytes), q.encode defines = .ok b ↔
      (q.node.Encodable defines ∧ q.HasSite) ∧ b = q.node.output defines :=
    fun q b => Placed.encode_eq_ok_iff
  have hout : (Placed.row nodes).map (fun q => q.node.output defines) =
      nodes.map (Node.output defines) := by
    conv => rhs; rw [← Placed.map_node_rowFrom 0 nodes, List.map_map]
    rfl
  rw [mapM_eq_ok_iff hq, hout]
  apply and_congr_left'
  constructor
  · intro h n hn
    obtain ⟨offset, hs⟩ := Node.exists_standsAt hn
    exact (h ⟨offset, n⟩ (Placed.mem_row.2 hs)).1
  · intro h q hm
    have hs := Placed.mem_row.1 hm
    have hn := h q.node hs.mem
    exact ⟨hn, Placed.hasSite_of_fits hn (Nat.le_trans hs.fits hf)⟩

/-! ## Programs -/

namespace Program

/-- Every labelled node starts at an address. -/
def LabelsReachable (p : Program) : Prop :=
  ∀ n offset, Node.StandsAt p.nodes n offset → n.label.isSome → offset < addressSpace

/-- The program has an image. -/
structure Compilable (p : Program) : Prop where
  labels_reachable : p.LabelsReachable
  fits : p.byteLength ≤ addressSpace
  encodable : ∀ n ∈ p.nodes, n.Encodable p.defines

/-- The image that the nodes lay out. -/
def image (p : Program) : Image where
  bytes := p.nodes.flatMap (Node.output p.defines)
  defines := p.defines
  references := LabelMap.groups p.fixups
  relocations := .ofList (p.fixups.map (·.2))
  sourceMap := p.sourceMap

theorem checkSize_eq_ok_iff (p : Program) :
    p.checkSize = .ok () ↔ p.LabelsReachable ∧ p.byteLength ≤ addressSpace := by
  unfold checkSize
  cases hf : (Placed.row p.nodes).find? fun q => q.node.label.isSome && addressSpace ≤ q.start with
  | some q =>
    have hq := List.find?_some hf
    have hm := Placed.mem_row.1 (List.mem_of_find?_eq_some hf)
    simp only [Bool.and_eq_true, decide_eq_true_eq] at hq
    have hn : ¬ p.LabelsReachable := by
      intro h
      have := h q.node q.start hm hq.1
      omega
    simp [hn]
  | none =>
    have hr : p.LabelsReachable := by
      intro n offset hs hl
      have := List.find?_eq_none.1 hf ⟨offset, n⟩ (Placed.mem_row.2 hs)
      simpa [hl] using this
    simp only [hr, true_and]
    split
    · simp only [reduceCtorEq, false_iff]
      omega
    · simp only [true_iff]
      omega

theorem compile_eq_ok_iff {p : Program} {image : Image} :
    p.compile = .ok image ↔ p.Compilable ∧ image = p.image := by
  unfold compile
  cases hc : p.checkSize with
  | error e =>
    have hn : ¬ p.Compilable := by
      intro h
      rw [(checkSize_eq_ok_iff p).2 ⟨h.labels_reachable, h.fits⟩] at hc
      cases hc
    simp [bind, Except.bind, hn]
  | ok u =>
    obtain ⟨hr, hl⟩ := (checkSize_eq_ok_iff p).1 hc
    have hm := @mapM_encode_eq_ok_iff p.defines p.nodes hl
    cases he : (Placed.row p.nodes).mapM (Placed.encode p.defines) with
    | error e =>
      have hn : ¬ p.Compilable := by
        intro h
        rw [(hm _).2 ⟨h.encodable, rfl⟩] at he
        cases he
      simp [bind, Except.bind, hn]
    | ok chunks =>
      obtain ⟨hall, rfl⟩ := (hm chunks).1 he
      have hp : p.Compilable := ⟨hr, hl, hall⟩
      constructor
      · intro h
        cases h
        exact ⟨hp, rfl⟩
      · rintro ⟨-, rfl⟩
        rfl

theorem length_bytes_image (p : Program) : p.image.bytes.length = Node.span p.nodes :=
  Node.length_outputs _ _

end Program

end WordMachine
