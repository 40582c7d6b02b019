-- The layout of nodes: a node stands at the offset that the nodes before it
-- take up together. The row that places nodes one behind the other holds
-- each node once, at its offset, and the places do not overlap.
import WordMachine.Image.Layout

namespace WordMachine

namespace Node

@[simp] theorem span_nil : span [] = 0 := rfl

@[simp] theorem span_cons (n : Node) (ns : List Node) :
    span (n :: ns) = n.byteLength + span ns := rfl

@[simp] theorem span_append (ns ms : List Node) : span (ns ++ ms) = span ns + span ms := by
  induction ns with
  | nil => rw [List.nil_append, span_nil, Nat.zero_add]
  | cons n ns ih => rw [List.cons_append, span_cons, span_cons, ih, Nat.add_assoc]

/-- The node stands behind nodes that take up `offset` bytes together. -/
def StandsAt (nodes : List Node) (n : Node) (offset : Nat) : Prop :=
  ∃ before after, nodes = before ++ n :: after ∧ span before = offset

theorem exists_standsAt {nodes : List Node} {n : Node} (h : n ∈ nodes) :
    ∃ offset, StandsAt nodes n offset := by
  obtain ⟨before, after, rfl⟩ := List.append_of_mem h
  exact ⟨_, before, after, rfl, rfl⟩

theorem StandsAt.mem {nodes : List Node} {n : Node} {offset : Nat}
    (h : StandsAt nodes n offset) : n ∈ nodes := by
  obtain ⟨before, after, rfl, -⟩ := h
  simp

theorem StandsAt.fits {nodes : List Node} {n : Node} {offset : Nat}
    (h : StandsAt nodes n offset) : offset + n.byteLength ≤ span nodes := by
  obtain ⟨before, after, rfl, rfl⟩ := h
  simp only [span_append, span_cons]
  omega

end Node

namespace Placed

/-! ## Rows -/

theorem rowFrom_eq (done : List Placed) (start : Nat) (ns : List Node) :
    rowFrom done start ns = done.reverse ++ rowFrom [] start ns := by
  induction ns generalizing done start with
  | nil => simp [rowFrom]
  | cons n ns ih =>
    rw [rowFrom, rowFrom, ih, ih [_]]
    simp

theorem rowFrom_cons (start : Nat) (n : Node) (ns : List Node) :
    rowFrom [] start (n :: ns) = ⟨start, n⟩ :: rowFrom [] (start + n.byteLength) ns := by
  rw [rowFrom, rowFrom_eq]
  rfl

theorem rowFrom_append (start : Nat) (ns ms : List Node) :
    rowFrom [] start (ns ++ ms) = rowFrom [] start ns ++ rowFrom [] (start + Node.span ns) ms := by
  induction ns generalizing start with
  | nil => simp [rowFrom]
  | cons n ns ih =>
    rw [List.cons_append, rowFrom_cons, rowFrom_cons, ih, Node.span_cons, Nat.add_assoc]
    rfl

theorem mem_rowFrom {p : Placed} {start : Nat} {ns : List Node} :
    p ∈ rowFrom [] start ns ↔
      ∃ before after, ns = before ++ p.node :: after ∧ p.start = start + Node.span before := by
  constructor
  · intro h
    induction ns generalizing start with
    | nil => simp [rowFrom] at h
    | cons n ns ih =>
      rw [rowFrom_cons] at h
      rcases List.mem_cons.1 h with rfl | h
      · exact ⟨[], ns, rfl, rfl⟩
      · obtain ⟨before, after, rfl, hs⟩ := ih h
        refine ⟨n :: before, after, rfl, ?_⟩
        rw [hs, Node.span_cons, Nat.add_assoc]
  · rintro ⟨before, after, rfl, hs⟩
    rw [rowFrom_append, rowFrom_cons, ← hs]
    simp

theorem mem_row {p : Placed} {ns : List Node} :
    p ∈ row ns ↔ Node.StandsAt ns p.node p.start := by
  rw [row, mem_rowFrom]
  simp only [Node.StandsAt, Nat.zero_add, eq_comm]

theorem start_le_of_mem {p : Placed} {start : Nat} {ns : List Node} (h : p ∈ rowFrom [] start ns) :
    start ≤ p.start ∧ p.start + p.node.byteLength ≤ start + Node.span ns := by
  obtain ⟨before, after, rfl, hs⟩ := mem_rowFrom.1 h
  rw [Node.span_append, Node.span_cons]
  omega

/-- Each node ends before the next ones start. -/
theorem pairwise_rowFrom (start : Nat) (ns : List Node) :
    (rowFrom [] start ns).Pairwise fun p q => p.start + p.node.byteLength ≤ q.start := by
  induction ns generalizing start with
  | nil => exact .nil
  | cons n ns ih =>
    rw [rowFrom_cons]
    exact List.pairwise_cons.2 ⟨fun q hq => (start_le_of_mem hq).1, ih _⟩

theorem map_node_rowFrom (start : Nat) (ns : List Node) :
    (rowFrom [] start ns).map Placed.node = ns := by
  induction ns generalizing start with
  | nil => rfl
  | cons n ns ih => rw [rowFrom_cons, List.map_cons, ih]

/-- A split of a row is a split of the nodes. -/
theorem row_eq_append_cons {nodes : List Node} {before after : List Placed} {q : Placed}
    (h : row nodes = before ++ q :: after) :
    nodes = before.map Placed.node ++ q.node :: after.map Placed.node ∧
      before = row (before.map Placed.node) ∧ q.start = Node.span (before.map Placed.node) := by
  have hnodes : nodes = before.map Placed.node ++ q.node :: after.map Placed.node := by
    rw [← map_node_rowFrom 0 nodes, show rowFrom [] 0 nodes = _ from h, List.map_append,
      List.map_cons]
  have hlen : (row (before.map Placed.node)).length = before.length := by
    have := congrArg List.length (map_node_rowFrom 0 (before.map Placed.node))
    rwa [List.length_map, List.length_map] at this
  rw [hnodes, row, rowFrom_append, rowFrom_cons, Nat.zero_add] at h
  obtain ⟨hb, hq⟩ := List.append_inj h hlen
  refine ⟨hnodes, hb.symm, ?_⟩
  rw [← (List.cons.inj hq).1]

/-- A row has a split at a node just if the nodes have one. -/
theorem exists_row_split_iff {nodes : List Node} {q : Placed} {P : List Placed → Prop} :
    (∃ before after, row nodes = before ++ q :: after ∧ P before) ↔
      ∃ before after, nodes = before ++ q.node :: after ∧ Node.span before = q.start ∧
        P (row before) := by
  constructor
  · rintro ⟨before, after, h, hP⟩
    obtain ⟨hnodes, hb, hs⟩ := row_eq_append_cons h
    rw [hb] at hP
    exact ⟨_, _, hnodes, hs.symm, hP⟩
  · rintro ⟨before, after, rfl, hs, hP⟩
    refine ⟨row before, rowFrom [] (q.start + q.node.byteLength) after, ?_, hP⟩
    rw [row, rowFrom_append, rowFrom_cons, Nat.zero_add, hs]
    rfl

end Placed

theorem Program.byteLength_eq_span (p : Program) : p.byteLength = Node.span p.nodes := rfl

end WordMachine
