-- Items: what nodes say when it is forgotten where they were read and which
-- label shares a node with which content. An image depends on nothing else.
import WordMachine.Proofs.Fixups

namespace WordMachine

/-! ## Programs without places -/

/-- The immediate, as if it had been read at the start of a text. -/
def Immediate.unplaced : Immediate → Immediate
  | constant value => constant value
  | label name _ => label name .start

/-- The instruction, as if it had been read at the start of a text. -/
def Instruction.unplaced (i : Instruction Immediate) : Instruction Immediate :=
  { i with immediate := i.immediate.map Immediate.unplaced }

/-- The content, as if it had been read at the start of a text. -/
def Content.unplaced : Content → Content
  | binary bytes => binary bytes
  | instruction i => instruction i.unplaced

/-- The node, as if it had been read at the start of a text. -/
def Node.unplaced (n : Node) : Node :=
  ⟨n.content.unplaced, n.label.map fun l => ⟨l.name, .start⟩, .start⟩

/-! ## Items -/

/-- What a line of a source text can say: that a label stands here, what is put
into the output, or how the document is called. -/
inductive Item
  | label (name : String)
  | content (c : Content)
  | title (name : String)
  deriving DecidableEq, Repr

/-- The content as an item. Empty data says nothing. -/
def Content.items : Content → List Item
  | binary [] => []
  | c => [.content c.unplaced]

/-- What a node says. -/
def Node.items (n : Node) : List Item :=
  (n.label.toList.map fun l => .label l.name) ++ n.content.items

theorem Content.items_cases (c : Content) :
    c = .binary [] ∨ c.items = [.content c.unplaced] := by
  cases c with
  | binary bytes =>
    cases bytes with
    | nil => exact .inl rfl
    | cons b bs => exact .inr rfl
  | instruction i => exact .inr rfl

theorem Content.unplaced_unplaced (c : Content) : c.unplaced.unplaced = c.unplaced := by
  cases c with
  | binary bytes => rfl
  | instruction i =>
    unfold Content.unplaced Instruction.unplaced
    simp only [Option.map_map]
    congr 3
    funext imm
    cases imm <;> rfl

theorem Content.items_unplaced (c : Content) : c.unplaced.items = c.items := by
  rcases c.items_cases with hc | hc
  · rw [hc]
    rfl
  · cases c with
    | binary bytes => rfl
    | instruction i =>
      rw [hc]
      exact congrArg (fun d => [Item.content d]) (Content.unplaced_unplaced (.instruction i))

theorem Node.items_unplaced (n : Node) : n.unplaced.items = n.items := by
  unfold items unplaced
  rw [Content.items_unplaced]
  cases n.label <;> rfl

theorem Node.items_map_unplaced (nodes : List Node) :
    (nodes.map unplaced).flatMap items = nodes.flatMap items := by
  rw [List.flatMap_map]
  congr 1
  funext n
  exact n.items_unplaced

theorem Node.labelNames_map_unplaced (nodes : List Node) :
    labelNames (nodes.map unplaced) = labelNames nodes := by
  unfold labelNames
  rw [List.filterMap_map]
  congr 1
  funext n
  unfold unplaced
  cases h : n.label <;> simp [h]

/-- The node that says just this. -/
def Item.node? : Item → Option Node
  | label name => some (.anchor ⟨name, .start⟩)
  | content c => some ⟨c, none, .start⟩
  | title _ => none

/-- Nodes with one item each that say the same as a node. -/
def Node.spread (n : Node) : List Node := n.items.filterMap Item.node?

theorem Content.byteLength_unplaced (c : Content) : c.unplaced.byteLength = c.byteLength := by
  cases c <;> rfl

namespace Node

theorem spread_eq (n : Node) : n.spread =
    (n.label.toList.map fun l => anchor ⟨l.name, .start⟩) ++
      n.content.items.filterMap Item.node? := by
  unfold spread items
  rw [List.filterMap_append, List.filterMap_map]
  congr 1
  cases n.label <;> rfl

theorem span_spread (n : Node) : span n.spread = n.byteLength := by
  have hl : span (n.label.toList.map fun l => anchor ⟨l.name, .start⟩) = 0 := by
    cases n.label <;> rfl
  rw [spread_eq, span_append, hl, Nat.zero_add]
  unfold byteLength
  rcases n.content.items_cases with hc | hc
  · rw [hc]
    rfl
  · rw [hc]
    exact n.content.byteLength_unplaced

theorem span_flatMap_spread (nodes : List Node) : span (nodes.flatMap spread) = span nodes := by
  induction nodes with
  | nil => rfl
  | cons n ns ih => rw [List.flatMap_cons, span_append, span_spread, ih, span_cons]

theorem output_unplaced (defines : LabelMap UInt16) (c : Content) (label label' : Option Label)
    (location location' : Location) :
    (⟨c.unplaced, label, location⟩ : Node).output defines =
      (⟨c, label', location'⟩ : Node).output defines := by
  unfold output
  cases c with
  | binary bytes => rfl
  | instruction i =>
    have hr : i.unplaced.resolved defines = i.resolved defines := by
      unfold Instruction.unplaced Instruction.resolved
      rw [Option.map_map]
      congr 2
      funext imm
      cases imm <;> rfl
    simp only [Content.unplaced, hr]

theorem output_spread (defines : LabelMap UInt16) (n : Node) :
    n.spread.flatMap (output defines) = n.output defines := by
  have hl : (n.label.toList.map fun l => anchor ⟨l.name, .start⟩).flatMap (output defines) = [] := by
    cases n.label <;> rfl
  rw [spread_eq, List.flatMap_append, hl, List.nil_append]
  rcases n.content.items_cases with hc | hc
  · unfold output
    rw [hc]
    rfl
  · rw [hc]
    simp only [List.filterMap_cons, List.filterMap_nil, Item.node?, List.flatMap_singleton]
    exact output_unplaced defines n.content none n.label .start n.location

theorem encodable_unplaced (defines : LabelMap UInt16) (c : Content) (label label' : Option Label)
    (location location' : Location) :
    (⟨c.unplaced, label, location⟩ : Node).Encodable defines ↔
      (⟨c, label', location'⟩ : Node).Encodable defines := by
  unfold Encodable
  cases c with
  | binary bytes => simp [Content.unplaced]
  | instruction i =>
    simp only [Content.unplaced, Content.instruction.injEq, forall_eq']
    refine and_congr ?_ ?_
    · unfold Instruction.Linked Instruction.unplaced
      cases himm : i.immediate with
      | none => simp
      | some imm => cases imm <;> simp [Immediate.unplaced]
    · unfold Instruction.Fits Instruction.unplaced
      simp only [Option.isSome_map]

theorem encodable_spread (defines : LabelMap UInt16) (n : Node) :
    (∀ m ∈ n.spread, m.Encodable defines) ↔ n.Encodable defines := by
  have hl : ∀ m ∈ n.label.toList.map fun l => anchor ⟨l.name, .start⟩, m.Encodable defines := by
    intro m hm i hi
    rw [List.mem_map] at hm
    obtain ⟨l, -, rfl⟩ := hm
    cases hi
  have hn := encodable_unplaced defines n.content none n.label .start n.location
  rw [spread_eq]
  rcases n.content.items_cases with hc | hc
  · have hno : n.Encodable defines := by
      intro i hi
      rw [hc] at hi
      cases hi
    rw [hc, Content.items, List.filterMap_nil, List.append_nil]
    exact ⟨fun _ => hno, fun _ => hl⟩
  · rw [hc]
    simp only [List.filterMap_cons, List.filterMap_nil, Item.node?, List.forall_mem_append,
      List.forall_mem_singleton, hn]
    exact ⟨fun h => h.2, fun h => ⟨hl, h⟩⟩

end Node

/-! ## Rows of items -/

namespace Placed

/-- The label of a node and its offset. -/
def labelled? (p : Placed) : Option (String × Nat) :=
  p.node.label.map fun l => (l.name, p.start)

theorem define?_eq (p : Placed) :
    p.define? = p.labelled?.map fun u => (u.1, UInt16.ofNat u.2) := by
  unfold define? labelled?
  rw [Option.map_map]
  rfl

theorem usedLabel?_unplaced (start : Nat) (c : Content) (label label' : Option Label)
    (location location' : Location) :
    (⟨start, c.unplaced, label, location⟩ : Placed).usedLabel? =
      (⟨start, c, label', location'⟩ : Placed).usedLabel? := by
  unfold usedLabel?
  cases c with
  | binary bytes => rfl
  | instruction i =>
    obtain ⟨op, a, b, imm⟩ := i
    cases imm with
    | none => rfl
    | some imm => cases imm <;> rfl

/-- Labels come before the content, and both start where the node does. -/
theorem rowFrom_spread (start : Nat) (n : Node) : rowFrom [] start n.spread =
    (n.label.toList.map fun l => ⟨start, .anchor ⟨l.name, .start⟩⟩) ++
      (n.content.items.filterMap Item.node?).map fun m => ⟨start, m⟩ := by
  rw [Node.spread_eq, rowFrom_append]
  have hl : rowFrom [] start (n.label.toList.map fun l => Node.anchor ⟨l.name, .start⟩) =
      n.label.toList.map fun l => ⟨start, .anchor ⟨l.name, .start⟩⟩ := by
    cases n.label <;> rfl
  have hs : Node.span (n.label.toList.map fun l => Node.anchor ⟨l.name, .start⟩) = 0 := by
    cases n.label <;> rfl
  rw [hl, hs, Nat.add_zero]
  congr 1
  rcases n.content.items_cases with hc | hc <;> rw [hc] <;> rfl

theorem labelled?_spread (start : Nat) (n : Node) :
    (rowFrom [] start n.spread).filterMap labelled? = (labelled? ⟨start, n⟩).toList := by
  have hc : ((n.content.items.filterMap Item.node?).map fun m => (⟨start, m⟩ : Placed)).filterMap
      labelled? = [] := by
    rcases n.content.items_cases with hc | hc <;> rw [hc] <;> rfl
  rw [rowFrom_spread, List.filterMap_append, hc, List.append_nil]
  unfold labelled?
  cases n.label <;> rfl

theorem fixup?_spread (start : Nat) (n : Node) :
    (rowFrom [] start n.spread).filterMap fixup? = (fixup? ⟨start, n⟩).toList := by
  have hl : (n.label.toList.map fun l => (⟨start, .anchor ⟨l.name, .start⟩⟩ : Placed)).filterMap
      fixup? = [] := by
    cases n.label <;> rfl
  rw [rowFrom_spread, List.filterMap_append, hl, List.nil_append]
  rcases n.content.items_cases with hc | hc
  · unfold fixup? usedLabel?
    rw [hc]
    rfl
  · have hu := usedLabel?_unplaced start n.content none n.label .start n.location
    rw [hc]
    simp only [List.filterMap_cons, List.filterMap_nil, Item.node?, List.map_cons, List.map_nil,
      fixup?, hu, site]
    cases (⟨start, n⟩ : Placed).usedLabel? <;> rfl

/-- What can be found in the row of a node's items can be found in the rows of all. -/
theorem filterMap_spread {α : Type} {f : Placed → Option α}
    (hf : ∀ start n, (rowFrom [] start (Node.spread n)).filterMap f = (f ⟨start, n⟩).toList)
    (start : Nat) (nodes : List Node) :
    (rowFrom [] start (nodes.flatMap Node.spread)).filterMap f =
      (rowFrom [] start nodes).filterMap f := by
  induction nodes generalizing start with
  | nil => rfl
  | cons n ns ih =>
    rw [List.flatMap_cons, rowFrom_append, List.filterMap_append, hf, Node.span_spread, ih,
      rowFrom_cons, List.filterMap_cons]
    cases f ⟨start, n⟩ <;> rfl

end Placed

/-! ## Programs with the same items -/

namespace Program

theorem labelsReachable_iff (p : Program) : p.LabelsReachable ↔
    ∀ u ∈ (Placed.row p.nodes).filterMap Placed.labelled?, u.2 < addressSpace := by
  unfold LabelsReachable
  constructor
  · rintro h ⟨name, offset⟩ hu
    rw [List.mem_filterMap] at hu
    obtain ⟨q, hq, hl⟩ := hu
    unfold Placed.labelled? at hl
    rw [Option.map_eq_some_iff] at hl
    obtain ⟨l, hl, he⟩ := hl
    cases he
    exact h q.node q.start (Placed.mem_row.1 hq) (by rw [hl]; rfl)
  · intro h n offset hs hl
    obtain ⟨l, hl⟩ := Option.isSome_iff_exists.1 hl
    refine h (l.name, offset) ?_
    rw [List.mem_filterMap]
    refine ⟨⟨offset, n⟩, Placed.mem_row.2 hs, ?_⟩
    unfold Placed.labelled?
    rw [hl]
    rfl

variable {p q : Program} (h : p.nodes.flatMap Node.items = q.nodes.flatMap Node.items)
include h

theorem spread_of_items : p.nodes.flatMap Node.spread = q.nodes.flatMap Node.spread := by
  have hs : ∀ nodes : List Node, nodes.flatMap Node.spread =
      (nodes.flatMap Node.items).filterMap Item.node? := by
    intro nodes
    rw [List.filterMap_flatMap]
    rfl
  rw [hs, hs, h]

theorem filterMap_row_of_items {α : Type} {f : Placed → Option α}
    (hf : ∀ start n, (Placed.rowFrom [] start (Node.spread n)).filterMap f =
      (f ⟨start, n⟩).toList) :
    (Placed.row p.nodes).filterMap f = (Placed.row q.nodes).filterMap f := by
  unfold Placed.row
  rw [← Placed.filterMap_spread hf, spread_of_items h, Placed.filterMap_spread hf]

theorem labels_of_items : (Placed.row p.nodes).filterMap Placed.labelled? =
    (Placed.row q.nodes).filterMap Placed.labelled? :=
  filterMap_row_of_items h Placed.labelled?_spread

theorem defines_of_items : p.defines = q.defines := by
  have hd : ∀ nodes, (Placed.row nodes).filterMap Placed.define? =
      ((Placed.row nodes).filterMap Placed.labelled?).map fun u => (u.1, UInt16.ofNat u.2) := by
    intro nodes
    rw [List.map_filterMap]
    congr 1
    funext r
    exact r.define?_eq
  unfold defines
  rw [hd, hd, labels_of_items h]

theorem fixups_of_items : p.fixups = q.fixups :=
  filterMap_row_of_items h Placed.fixup?_spread

theorem bytes_of_items (defines : LabelMap UInt16) :
    p.nodes.flatMap (Node.output defines) = q.nodes.flatMap (Node.output defines) := by
  have hs : ∀ nodes : List Node, nodes.flatMap (Node.output defines) =
      (nodes.flatMap Node.spread).flatMap (Node.output defines) := by
    intro nodes
    rw [List.flatMap_assoc]
    congr 1
    funext n
    exact (Node.output_spread defines n).symm
  rw [hs p.nodes, hs q.nodes, spread_of_items h]

theorem compilable_of_items (hp : p.Compilable) : q.Compilable := by
  refine ⟨?_, ?_, ?_⟩
  · rw [labelsReachable_iff, ← labels_of_items h, ← labelsReachable_iff]
    exact hp.labels_reachable
  · have hf := hp.fits
    rw [byteLength_eq_span] at hf ⊢
    rwa [← Node.span_flatMap_spread, ← spread_of_items h, Node.span_flatMap_spread]
  · have he : ∀ m ∈ p.nodes.flatMap Node.spread, m.Encodable p.defines := by
      intro m hm
      obtain ⟨n, hn, hm⟩ := List.mem_flatMap.1 hm
      exact (Node.encodable_spread p.defines n).2 (hp.encodable n hn) m hm
    rw [spread_of_items h, defines_of_items h] at he
    intro n hn
    rw [← Node.encodable_spread]
    exact fun m hm => he m (List.mem_flatMap.2 ⟨n, hn, hm⟩)

end Program

/-- Two images that agree in all that goes into an output or a symbol table. -/
structure Image.Agrees (image other : Image) : Prop where
  bytes : image.bytes = other.bytes
  defines : image.defines = other.defines
  references : image.references = other.references
  relocations : image.relocations = other.relocations

/-- Programs with the same items have images that agree. -/
theorem Program.compile_of_items {p q : Program}
    (h : p.nodes.flatMap Node.items = q.nodes.flatMap Node.items) {image : Image}
    (hc : p.compile = .ok image) : ∃ other, q.compile = .ok other ∧ other.Agrees image := by
  obtain ⟨hp, rfl⟩ := compile_eq_ok_iff.1 hc
  refine ⟨q.image, compile_eq_ok_iff.2 ⟨compilable_of_items h hp, rfl⟩, ?_, ?_, ?_, ?_⟩
  · unfold image
    rw [defines_of_items h, bytes_of_items h]
  · exact (defines_of_items h).symm
  · unfold image
    rw [fixups_of_items h]
  · unfold image
    rw [fixups_of_items h]

end WordMachine
