-- Source maps: every byte of an image is located at the node that put it out. Empty
-- nodes leave an entry at the offset of the node behind them, which overwrites it.
import Mathlib.Data.List.Find
import WordMachine.Proofs.AddressMaps
import WordMachine.Proofs.Compilation

namespace WordMachine

/-! ## The node of a byte -/

namespace Node

/-- The node between those before and those after it takes the byte at the offset. -/
structure Covers (nodes before : List Node) (n : Node) (after : List Node) (offset : Nat) :
    Prop where
  nodes_eq : nodes = before ++ n :: after
  starts : span before ≤ offset
  ends : offset < span before + n.byteLength

variable {nodes before after before' after' : List Node} {n n' : Node} {offset : Nat}

theorem exists_covers (h : offset < span nodes) :
    ∃ before n after, Covers nodes before n after offset := by
  induction nodes generalizing offset with
  | nil => exact absurd h (Nat.not_lt_zero offset)
  | cons m ms ih =>
    rw [span_cons] at h
    by_cases hm : offset < m.byteLength
    · exact ⟨[], m, ms, rfl, Nat.zero_le offset, by rwa [span_nil, Nat.zero_add]⟩
    · obtain ⟨before, n, after, rfl, hstarts, hends⟩ := @ih (offset - m.byteLength) (by omega)
      refine ⟨m :: before, n, after, rfl, ?_, ?_⟩
      · rw [span_cons]
        omega
      · rw [span_cons]
        omega

/-- Of two nodes that take a byte, the second is not behind the first. -/
theorem Covers.gap_eq_nil {gap : List Node} (h : Covers nodes before n after offset)
    (h' : Covers nodes (before ++ gap) n' after' offset) : gap = [] := by
  cases gap with
  | nil => rfl
  | cons m gap =>
    have hnodes := h.nodes_eq.symm.trans h'.nodes_eq
    rw [List.append_assoc, List.append_cancel_left_eq] at hnodes
    obtain ⟨rfl, -⟩ := List.cons.inj hnodes
    have hends := h.ends
    have hstarts := h'.starts
    rw [span_append, span_cons] at hstarts
    omega

/-- Just one node takes a byte. -/
theorem Covers.unique (h : Covers nodes before n after offset)
    (h' : Covers nodes before' n' after' offset) : before' = before ∧ n' = n ∧ after' = after := by
  have hnodes := h.nodes_eq.symm.trans h'.nodes_eq
  rcases List.append_eq_append_iff.1 hnodes with ⟨gap, rfl, hgap⟩ | ⟨gap, rfl, hgap⟩
  · obtain rfl := h.gap_eq_nil h'
    obtain ⟨rfl, rfl⟩ := List.cons.inj hgap
    exact ⟨List.append_nil before, rfl, rfl⟩
  · obtain rfl := h'.gap_eq_nil h
    obtain ⟨rfl, rfl⟩ := List.cons.inj hgap
    exact ⟨(List.append_nil before').symm, rfl, rfl⟩

/-- The byte in the output of all nodes is the one in the output of its node. -/
theorem Covers.getElem?_output (h : Covers nodes before n after offset)
    (defines : LabelMap UInt16) : (nodes.flatMap (output defines))[offset]? =
      (n.output defines)[offset - span before]? := by
  have hlen := length_outputs defines before
  have hstarts := h.starts
  have hends := h.ends
  have hout := length_output defines n
  rw [h.nodes_eq, List.flatMap_append, List.flatMap_cons,
    List.getElem?_append_right (by omega), List.getElem?_append_left (by omega), hlen]

/-- The nodes beside one that takes a byte end before it or start behind it. -/
theorem Covers.start_le (h : Covers nodes before n after offset) {q : Placed}
    (hq : q ∈ Placed.row nodes) (hle : q.start ≤ offset) : q.start ≤ span before := by
  rw [h.nodes_eq, Placed.row, Placed.rowFrom_append, Placed.rowFrom_cons, Nat.zero_add] at hq
  have hends := h.ends
  rcases List.mem_append.1 hq with hq | hq
  · have := Placed.start_le_of_mem hq
    omega
  · rcases List.mem_cons.1 hq with rfl | hq
    · exact Nat.le_refl _
    · have := Placed.start_le_of_mem hq
      omega

end Node

/-! ## The entries of the map -/

namespace Program

variable {p : Program} {offset : Nat}

/-- The entry at an offset is that of the last node that starts there. -/
theorem get?_sourceMap (ho : offset < addressSpace) : p.sourceMap.get? offset =
    ((Placed.row p.nodes).reverse.find? (·.start == offset)).map (·.node.location) := by
  have hkeep : ∀ q : Placed, decide (decide (q.start < addressSpace) = true ∧
      (q.start == offset) = true) = (q.start == offset) := by
    intro q
    by_cases hq : q.start = offset
    · simp [hq, ho]
    · simp [hq]
  unfold sourceMap
  rw [AddressMap.get?_ofList, ← List.map_reverse, ← List.filter_reverse, List.find?_map,
    List.find?_filter, Option.map_map]
  exact congrArg _ (List.find?_congr fun q _ => hkeep q)

theorem exists_get?_sourceMap_iff (ho : offset < addressSpace) :
    (∃ l, p.sourceMap.get? offset = some l) ↔ ∃ n, Node.StandsAt p.nodes n offset := by
  rw [get?_sourceMap ho, ← Option.isSome_iff_exists, Option.isSome_map, List.find?_isSome]
  constructor
  · rintro ⟨q, hq, hstart⟩
    obtain rfl := eq_of_beq hstart
    exact ⟨q.node, Placed.mem_row.1 (List.mem_reverse.1 hq)⟩
  · rintro ⟨n, hn⟩
    exact ⟨⟨offset, n⟩, List.mem_reverse.2 (Placed.mem_row.2 hn), beq_self_eq_true offset⟩

variable {before after : List Node} {n : Node}

/-- No node behind one that takes a byte starts where it starts, so the entry is its own. -/
theorem get?_sourceMap_of_covers (h : Node.Covers p.nodes before n after offset)
    (ho : offset < addressSpace) :
    p.sourceMap.get? (Node.span before) = some n.location := by
  have hstarts := h.starts
  have hends := h.ends
  have hbehind : (Placed.rowFrom [] (Node.span before + n.byteLength) after).reverse.find?
      (·.start == Node.span before) = none := by
    rw [List.find?_eq_none]
    intro q hq heq
    have := Placed.start_le_of_mem (List.mem_reverse.1 hq)
    rw [beq_iff_eq] at heq
    omega
  rw [get?_sourceMap (by omega), h.nodes_eq, Placed.row, Placed.rowFrom_append,
    Placed.rowFrom_cons, Nat.zero_add, List.reverse_append, List.reverse_cons, List.append_assoc,
    List.find?_append, hbehind]
  simp

/-- The last entry at or before a byte is that of its node. -/
theorem floor?_sourceMap_of_covers (h : Node.Covers p.nodes before n after offset)
    (ho : offset < addressSpace) :
    p.sourceMap.floor? offset = some (Node.span before, n.location) := by
  have hentry := get?_sourceMap_of_covers h ho
  cases hf : p.sourceMap.floor? offset with
  | none =>
    have := AddressMap.floor?_eq_none_iff.1 hf _ _ hentry
    exact absurd h.starts (Nat.not_le_of_lt this)
  | some e =>
    obtain ⟨start, location⟩ := e
    obtain ⟨hget, hle, hlast⟩ := AddressMap.of_floor?_eq_some hf
    -- The entry is not before that of the node, and no node between has one.
    obtain ⟨m, hm⟩ := (exists_get?_sourceMap_iff (Nat.lt_of_le_of_lt hle ho)).1 ⟨location, hget⟩
    have hstart := h.start_le (Placed.mem_row (p := ⟨start, m⟩).2 hm) hle
    obtain rfl := Nat.le_antisymm hstart (hlast _ _ hentry h.starts)
    rw [hentry] at hget
    cases hget
    rfl

end Program

/-- The source map of an image locates each byte at the one node that put it out, and has an
entry at just the offsets at which a node starts. -/
theorem the_source_map_locates_every_byte (p : Program) (image : Image)
    (h : p.compile = .ok image) :
    (∀ offset < image.bytes.length, ∃ before n after,
      Node.Covers p.nodes before n after offset ∧
        (∀ before' n' after', Node.Covers p.nodes before' n' after' offset →
          before' = before ∧ n' = n ∧ after' = after) ∧
        image.bytes[offset]? = (n.output image.defines)[offset - Node.span before]? ∧
        image.sourceMap.floor? offset = some (Node.span before, n.location)) ∧
      ∀ offset < addressSpace, (∃ l, image.sourceMap.get? offset = some l) ↔
        ∃ n, Node.StandsAt p.nodes n offset := by
  obtain ⟨hc, rfl⟩ := Program.compile_eq_ok_iff.1 h
  have hmap : p.image.sourceMap = p.sourceMap := rfl
  rw [hmap]
  constructor
  · intro offset ho
    rw [Program.length_bytes_image] at ho
    obtain ⟨before, n, after, hn⟩ := Node.exists_covers ho
    have hlt : offset < addressSpace := Nat.lt_of_lt_of_le ho hc.fits
    exact ⟨before, n, after, hn, fun _ _ _ h' => hn.unique h', hn.getElem?_output p.defines,
      Program.floor?_sourceMap_of_covers hn hlt⟩
  · intro offset ho
    exact Program.exists_get?_sourceMap_iff ho

/-- A jump behind a label and data without bytes, with a label at the end. -/
def surroundedJump : Program := .ofNodes [
  .anchor ⟨"start", ⟨0, 0, 0⟩⟩,
  ⟨.binary [], none, ⟨7, 1, 0⟩⟩,
  ⟨.instruction ⟨.jump, none, none, some (.label "end" ⟨19, 2, 5⟩)⟩, none, ⟨14, 2, 0⟩⟩,
  .anchor ⟨"end", ⟨23, 3, 0⟩⟩]

theorem a_jump_between_empty_nodes_is_located : ∃ image, surroundedJump.compile = .ok image ∧
    image.sourceMap.floor? 2 = some (0, ⟨14, 2, 0⟩) ∧
      ∃ l, image.sourceMap.get? 4 = some l := by
  have hcompile : surroundedJump.compile = .ok surroundedJump.image := by decide +kernel
  obtain ⟨hlocates, hentries⟩ :=
    the_source_map_locates_every_byte surroundedJump surroundedJump.image hcompile
  have hlength : surroundedJump.image.bytes.length = 4 := by decide +kernel
  obtain ⟨before, n, after, -, hunique, -, hfloor⟩ := hlocates 2 (by rw [hlength]; decide)
  have hjump : Node.Covers surroundedJump.nodes (surroundedJump.nodes.take 2)
      ⟨.instruction ⟨.jump, none, none, some (.label "end" ⟨19, 2, 5⟩)⟩, none, ⟨14, 2, 0⟩⟩
      (surroundedJump.nodes.drop 3) 2 := ⟨rfl, by decide, by decide⟩
  obtain ⟨rfl, rfl, rfl⟩ := hunique _ _ _ hjump
  have hend : Node.StandsAt surroundedJump.nodes (.anchor ⟨"end", ⟨23, 3, 0⟩⟩) 4 :=
    ⟨surroundedJump.nodes.take 3, [], rfl, rfl⟩
  exact ⟨_, hcompile, hfloor, (hentries 4 (by decide)).2 ⟨_, hend⟩⟩

end WordMachine
