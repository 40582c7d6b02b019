-- Reparsing. The listing of a program that was read from a text is read as the same nodes
-- again, unless there is data without bytes in it that has no text of its own.
import WordMachine.Proofs.LabelResolution
import WordMachine.Proofs.Rendering
import WordMachine.Proofs.Spelling

namespace WordMachine

/-! ## What was read from a text can be written -/

/-- The meaning can stand in a text as it is. -/
structure TokenValue.Writable (v : TokenValue) : Prop where
  identifier : ∀ name, v = .identifier name → IsLabelName name
  string : ∀ s, v = .string s → ∀ c ∈ s.toList, isInString c = true

/-- The item can stand in a text as it is. -/
def Item.Writable : Item → Prop
  | label name => IsLabelName name
  | content c => ∀ i, c = .instruction i → i.Fits ∧ i.Legible
  | title name => ∀ c ∈ name.toList, isInString c = true

theorem TokenValue.writable_ofName {s : String} (h : isName s = true) : (ofName s).Writable := by
  rcases ofName_cases s with ⟨r, hv⟩ | ⟨op, hv⟩ | ⟨d, hv⟩ | hv
  · rw [hv]
    exact ⟨nofun, nofun⟩
  · rw [hv]
    exact ⟨nofun, nofun⟩
  · rw [hv]
    exact ⟨nofun, nofun⟩
  · rw [hv]
    refine ⟨?_, nofun⟩
    intro name hname
    cases hname
    exact isLabelName_iff.2 ⟨h, hv⟩

/-- A lexeme means what can stand in a text, if it means something. -/
theorem Lexeme.writable_of_meaning {x : Lexeme} (hx : x.kind.Fits x.chars) {v : TokenValue}
    (h : x.meaning = .ok (some v)) : v.Writable := by
  obtain ⟨kind, chars, rest⟩ := x
  simp only at hx
  unfold meaning Fragment.meaning at h
  cases hx with
  | string hcs =>
    simp only at h
    rw [stringBody_quoted] at h
    cases h
    refine ⟨nofun, ?_⟩
    intro s hs
    cases hs
    rwa [String.toList_ofList]
  | @identifier c cs hc hcs =>
    have hname : isName (.ofList (c :: cs)) = true := by
      unfold isName
      rw [String.toList_ofList]
      simpa [hc] using hcs
    simp only [Except.ok.injEq, Option.some.injEq] at h
    rw [← h]
    exact TokenValue.writable_ofName hname
  | symbol | hexNumber | number =>
    simp only at h
    split at h <;> cases h
    exact ⟨nofun, nofun⟩
  | whitespace | comment => cases h
  | _ =>
    cases h
    exact ⟨nofun, nofun⟩

theorem Reads.writable {cs : List Char} {vs : List TokenValue} (h : Reads cs vs) :
    ∀ v ∈ vs, v.Writable := by
  induction h with
  | nil => simp
  | @cons cs x v vs hx hm _ ih =>
    cases v with
    | none => exact ih
    | some v =>
      have hv := x.writable_of_meaning (Lexeme.fits_of_first? hx) hm
      exact List.forall_mem_cons.2 ⟨hv, ih⟩

theorem Instruction.fits_unplaced {i : Instruction Immediate} : i.unplaced.Fits ↔ i.Fits := by
  unfold Fits unplaced
  simp only [Option.isSome_map]

theorem Instruction.legible_unplaced {i : Instruction Immediate} :
    i.unplaced.Legible ↔ i.Legible := by
  unfold Legible unplaced
  constructor
  · intro h name location himm
    exact h name .start (by rw [himm]; rfl)
  · intro h name location himm
    obtain ⟨imm, hi, he⟩ := Option.map_eq_some_iff.1 himm
    cases imm with
    | constant value => cases he
    | label other place =>
      cases he
      exact h name place hi

theorem States.writable {vs : List TokenValue} {x : Item} (h : States vs x)
    (hv : ∀ v ∈ vs, v.Writable) : x.Writable := by
  cases h with
  | @instruction i hf =>
    intro j hj
    cases hj
    refine ⟨Instruction.fits_unplaced.2 hf, Instruction.legible_unplaced.2 ?_⟩
    intro name location himm
    refine (hv (.identifier name) ?_).identifier name rfl
    unfold Instruction.meanings Instruction.operands
    rcases hf.registers with ⟨-, ha, hb⟩ | ⟨ra, -, ha, hb⟩ | ⟨ra, rb, -, ha, hb⟩ <;>
      simp [ha, hb, himm, Immediate.meaning]
  | text hr =>
    intro i hi
    cases hi
  | word hlt =>
    intro i hi
    cases hi
  | title name => exact (hv (.string name) (by simp)).string name rfl

theorem LineSays.writable {vs : List TokenValue} {xs : List Item} (h : LineSays vs xs)
    (hv : ∀ v ∈ vs, v.Writable) : ∀ x ∈ xs, x.Writable := by
  have hbare : ∀ {vs xs}, BareLineSays vs xs → (∀ v ∈ vs, v.Writable) → ∀ x ∈ xs, x.Writable := by
    intro vs xs hb hv
    cases hb with
    | nothing => simp
    | statement hs => simpa using hs.writable hv
  cases h with
  | bare hb => exact hbare hb hv
  | labelled name hb =>
    obtain ⟨hname, hv⟩ := List.forall_mem_cons.1 hv
    obtain ⟨-, hv⟩ := List.forall_mem_cons.1 hv
    exact List.forall_mem_cons.2 ⟨hname.identifier name rfl, hbare hb hv⟩

/-- What a text says can be written. -/
theorem TextSays.writable {source : String} {xs : List Item} (h : TextSays source xs) :
    ∀ x ∈ xs, x.Writable := by
  obtain ⟨vs, hreads, said, hsaid, rfl⟩ := h
  have hlines : ∀ l ∈ vs.splitOn .endOfLine, ∀ v ∈ l, v.Writable := by
    intro l hl v hv
    have hmem := List.mem_flatten.2 ⟨l, hl, hv⟩
    rw [List.splitOn_eq_splitOnP, Fragment.flatten_splitOnP] at hmem
    exact hreads.writable v (List.mem_filter.1 hmem).1
  generalize vs.splitOn .endOfLine = lines at hsaid hlines
  induction hsaid with
  | nil => simp
  | cons hx _ ih =>
    obtain ⟨hhead, htail⟩ := List.forall_mem_cons.1 hlines
    rw [List.flatten_cons]
    exact List.forall_mem_append.2 ⟨hx.writable hhead, ih htail⟩

/-! ## Nodes of items -/

theorem Item.content_of_mem_nodesFrom {pending : Option String} {xs : List Item} {n : Node}
    (h : n ∈ nodesFrom pending xs) : n.content = .binary [] ∨ .content n.content ∈ xs := by
  have hanchor : ∀ {pending : Option String} {m : Node},
      m ∈ pending.toList.map (fun name => Node.anchor ⟨name, .start⟩) → m.content = .binary [] := by
    intro pending m hm
    obtain ⟨name, -, rfl⟩ := List.mem_map.1 hm
    rfl
  induction xs generalizing pending with
  | nil => exact .inl (hanchor h)
  | cons x xs ih =>
    cases x with
    | label name =>
      rcases List.mem_append.1 h with h | h
      · exact .inl (hanchor h)
      · exact (ih h).imp_right (List.mem_cons_of_mem _)
    | content c =>
      rcases List.mem_cons.1 h with rfl | h
      · exact .inr List.mem_cons_self
      · exact (ih h).imp_right (List.mem_cons_of_mem _)
    | title name => exact (ih h).imp_right (List.mem_cons_of_mem _)

/-- The labels of the nodes are those of the items, with the one that waits. -/
theorem Item.labelNames_nodesFrom (pending : Option String) (xs : List Item) :
    Node.labelNames (nodesFrom pending xs) = pending.toList ++ labels xs := by
  have hanchor : ∀ pending : Option String,
      Node.labelNames (pending.toList.map fun name => Node.anchor ⟨name, .start⟩) =
        pending.toList := by
    intro pending
    cases pending <;> rfl
  induction xs generalizing pending with
  | nil => rw [nodesFrom, hanchor, labels, List.filterMap_nil, List.append_nil]
  | cons x xs ih =>
    unfold Node.labelNames at hanchor ih ⊢
    cases x with
    | label name =>
      rw [nodesFrom, List.filterMap_append, hanchor, ih]
      rfl
    | content c =>
      rw [nodesFrom, List.filterMap_cons, ih]
      cases pending <;> rfl
    | title name =>
      rw [nodesFrom, ih]
      rfl

/-! ## Programs that were read from items -/

section Said

variable {p : Program} {xs : List Item} (h : p.nodes.map Node.unplaced = Item.nodesFrom none xs)
include h

theorem Program.labelNames_of_items : Node.labelNames p.nodes = Item.labels xs := by
  rw [← Node.labelNames_map_unplaced, h, Item.labelNames_nodesFrom]
  rfl

/-- The instructions of the program are among the items. -/
theorem Program.instruction_mem_of_items {n : Node} (hn : n ∈ p.nodes)
    {i : Instruction Immediate} (hc : n.content = .instruction i) :
    .content (.instruction i.unplaced) ∈ xs := by
  have hu : n.unplaced.content = .instruction i.unplaced := by
    unfold Node.unplaced
    rw [hc]
    rfl
  have hmem : n.unplaced ∈ Item.nodesFrom none xs := by
    rw [← h]
    exact List.mem_map.2 ⟨n, hn, rfl⟩
  rcases Item.content_of_mem_nodesFrom hmem with hempty | hitem
  · rw [hu] at hempty
    cases hempty
  · rwa [hu] at hitem

end Said

/-! ## Programs that were read from a text -/

/-- A text that is read as a program says one row of items, and the program is theirs. -/
theorem TextSays.of_source {source : String} {p : Program} (h : Program.ofSource source = .ok p) :
    ∃ xs, (∀ ys, TextSays source ys ↔ ys = xs) ∧ (Item.labels xs).Nodup ∧ xs ≠ [] ∧
      p.name.toList = Item.titles xs ∧ p.nodes.map Node.unplaced = Item.nodesFrom none xs := by
  obtain ⟨fs, ts, hf, ht, hp⟩ := Program.ofSource_eq_ok_iff.1 h
  obtain ⟨xs, htext, hn, hname, hnodes⟩ := TextSays.of_tokens hf ht hp
  refine ⟨xs, htext, hn, ?_, hname, hnodes⟩
  rintro rfl
  -- Nothing is said, so the parser has no tokens.
  obtain ⟨vs, hvs, hnothing⟩ := (htext []).2 rfl
  obtain ⟨us, hus, rfl⟩ := Reads.of_fragments hf ht
  rw [hvs.unique hus] at hnothing
  rw [hnothing.dropEmptyLines_eq_nil_iff.2 rfl] at hp
  cases hp

/-- What the program holds can be written as a text. -/
structure Program.Writable (p : Program) : Prop where
  legible : ∀ n ∈ p.nodes, n.Legible
  fits : ∀ n ∈ p.nodes, ∀ i, n.content = .instruction i → i.Fits
  title : ∀ name, p.name = some name → ∀ c ∈ name.toList, isInString c = true
  distinct : (Node.labelNames p.nodes).Nodup

/-- A program that was read from a text can be written. -/
theorem Program.writable_of_source {source : String} {p : Program}
    (h : Program.ofSource source = .ok p) : p.Writable := by
  obtain ⟨xs, htext, hdistinct, -, hname, hnodes⟩ := TextSays.of_source h
  have hxs := TextSays.writable ((htext xs).2 rfl)
  have hlabels := Program.labelNames_of_items hnodes
  have hcontent : ∀ n ∈ p.nodes, ∀ i, n.content = .instruction i → i.Fits ∧ i.Legible := by
    intro n hn i hi
    obtain ⟨hf, hl⟩ := hxs _ (Program.instruction_mem_of_items hnodes hn hi) i.unplaced rfl
    exact ⟨Instruction.fits_unplaced.1 hf, Instruction.legible_unplaced.1 hl⟩
  refine ⟨?_, fun n hn i hi => (hcontent n hn i hi).1, ?_, ?_⟩
  · intro n hn
    refine ⟨?_, fun i hi => (hcontent n hn i hi).2⟩
    intro l hl
    have hm : l.name ∈ Node.labelNames p.nodes := by
      refine List.mem_filterMap.2 ⟨n, hn, ?_⟩
      rw [hl]
      rfl
    rw [hlabels, Item.mem_labels] at hm
    exact hxs _ hm
  · intro name hn
    have hm : name ∈ Item.titles xs := by
      rw [← hname, hn]
      exact List.mem_singleton.2 rfl
    obtain ⟨x, hx, ht⟩ := List.mem_filterMap.1 hm
    cases x with
    | title other =>
      cases ht
      exact hxs _ hx
    | _ => cases ht
  · rw [hlabels]
    exact hdistinct

/-! ## The listing of a program -/

namespace Program

theorem Writable.textSays {p : Program} (h : p.Writable) : TextSays p.listing p.said.flatten :=
  ⟨_, reads_listing h.legible h.title, sourceSays_of_lines (lines_say_said h.fits)⟩

/-- The listing is read as nothing else than the name and the items of the nodes. -/
theorem Writable.eq_of_listing {p q : Program} (h : p.Writable)
    (hq : ofSource p.listing = .ok q) : q.name = p.name ∧
      q.nodes.map Node.unplaced = Item.nodesFrom none (p.nodes.flatMap Node.items) := by
  obtain ⟨xs, htext, -, -, hname, hnodes⟩ := TextSays.of_source hq
  have hxs := (htext _).1 h.textSays
  rw [← hxs] at hname hnodes
  constructor
  · have hfirst := congrArg List.head? (hname.trans p.titles_said)
    rwa [Option.head?_toList, Option.head?_toList] at hfirst
  · rw [hnodes, flatten_said]
    cases p.name <;> rfl

/-- The listing is read as a program if it says something. -/
theorem Writable.exists_of_listing {p : Program} (h : p.Writable)
    (hp : p.name.isSome ∨ ∃ n ∈ p.nodes, n.label.isSome ∨ n.content ≠ .binary []) :
    ∃ q, ofSource p.listing = .ok q := by
  have hdistinct : (Item.labels p.said.flatten).Nodup := by
    rw [labels_said]
    exact h.distinct
  have hone : (Item.titles p.said.flatten).length ≤ 1 := by
    rw [titles_said]
    cases p.name <;> simp
  obtain ⟨q, hq, -⟩ := ofSource_of_reads (reads_listing h.legible h.title)
    (lines_say_said h.fits) hdistinct hone (exists_line hp)
  exact ⟨q, hq⟩

end Program

/-! ## Nodes that keep their labels -/

theorem Content.items_of_ne {c : Content} (h : c ≠ .binary []) : c.items = [.content c.unplaced] :=
  c.items_cases.resolve_left h

theorem Content.unplaced_ne {c : Content} (h : c ≠ .binary []) : c.unplaced ≠ .binary [] := by
  cases c with
  | binary bytes => exact h
  | instruction i => exact nofun

namespace Node

/-- No node is lost and no label moves to another node when the nodes are listed: a node
without bytes has a label, and so has the node behind it. -/
def Settled : List Node → Prop
  | [] => True
  | n :: ns => (n.content = .binary [] → n.label.isSome ∧ ∀ m ∈ ns.head?, m.label.isSome) ∧
      Settled ns

/-- The items of a node with a content are read as the node. -/
theorem nodesFrom_of_ne {n : Node} (h : n.content ≠ .binary []) (xs : List Item) :
    Item.nodesFrom none (n.items ++ xs) = n.unplaced :: Item.nodesFrom none xs := by
  obtain ⟨c, label, place⟩ := n
  unfold items
  rw [Content.items_of_ne h]
  cases label <;> rfl

/-- No more nodes are read from the items of nodes than there were. -/
theorem length_nodesFrom_le (pending : Option String) (nodes : List Node) :
    (Item.nodesFrom pending (nodes.flatMap items)).length ≤
      pending.toList.length + nodes.length := by
  induction nodes generalizing pending with
  | nil => simp [Item.nodesFrom]
  | cons n ns ih =>
    have hitems : n.items = (n.label.toList.map fun l => .label l.name) ++ n.content.items := rfl
    rw [List.flatMap_cons, List.length_cons, hitems]
    rcases n.content.items_cases with hc | hc
    · rw [hc, Content.items, List.append_nil]
      cases n.label with
      | none =>
        have hrest := ih pending
        simp only [Option.toList_none, List.map_nil, List.nil_append]
        omega
      | some l =>
        have hrest := ih (some l.name)
        simp [Item.nodesFrom] at hrest ⊢
        omega
    · have hrest := ih none
      rw [hc]
      cases n.label with
      | none =>
        simp [Item.nodesFrom] at hrest ⊢
        omega
      | some l =>
        simp [Item.nodesFrom] at hrest ⊢
        omega

/-- A label that waits before another label, or before nothing, has a node of its own. -/
theorem nodesFrom_some {name : String} {nodes : List Node}
    (h : ∀ m ∈ nodes.head?, m.label.isSome) :
    Item.nodesFrom (some name) (nodes.flatMap items) =
      anchor ⟨name, .start⟩ :: Item.nodesFrom none (nodes.flatMap items) := by
  cases nodes with
  | nil => rfl
  | cons m ms =>
    obtain ⟨l, hl⟩ := Option.isSome_iff_exists.1 (h m rfl)
    rw [List.flatMap_cons]
    unfold items
    rw [hl]
    rfl

/-- A label that waits before a node without a label moves to its content, or the node is
lost. -/
theorem nodesFrom_some_ne {nodes : List Node} (h : ¬ ∀ m ∈ nodes.head?, m.label.isSome)
    (name : String) : Item.nodesFrom (some name) (nodes.flatMap items) ≠
      anchor ⟨name, .start⟩ :: nodes.map unplaced := by
  intro he
  cases nodes with
  | nil => exact h (by simp)
  | cons m ms =>
    obtain ⟨c, label, place⟩ := m
    have hlabel : label = none := by simpa using h
    have hitems : items ⟨c, label, place⟩ = c.items := by rw [hlabel]; rfl
    rw [List.flatMap_cons, hitems] at he
    by_cases hc : c = .binary []
    · have hlength := length_nodesFrom_le (some name) ms
      have hlong := congrArg List.length he
      simp [hc, Content.items] at hlong hlength
      omega
    · rw [Content.items_of_ne hc] at he
      have hcontent := congrArg Node.content (List.cons.inj he).1
      exact Content.unplaced_ne hc hcontent

/-- Nodes are read from their items again just if they are settled. -/
theorem nodesFrom_items_iff (nodes : List Node) :
    Item.nodesFrom none (nodes.flatMap items) = nodes.map unplaced ↔ Settled nodes := by
  induction nodes with
  | nil => exact ⟨fun _ => trivial, fun _ => rfl⟩
  | cons n ns ih =>
    rw [List.flatMap_cons, List.map_cons, Settled, ← ih]
    by_cases hc : n.content = .binary []
    · obtain ⟨c, label, place⟩ := n
      cases hc
      cases label with
      | none =>
        -- The node says nothing, so there are too few nodes.
        have hlength := length_nodesFrom_le none ns
        constructor
        · intro h
          have hlong := congrArg List.length h
          simp [items, Content.items] at hlong hlength
          omega
        · rintro ⟨hlabel, -⟩
          cases (hlabel rfl).1
      | some l =>
        have hitems : items ⟨.binary [], some l, place⟩ ++ ns.flatMap items =
            .label l.name :: ns.flatMap items := rfl
        have hanchor : unplaced ⟨.binary [], some l, place⟩ = anchor ⟨l.name, .start⟩ := rfl
        rw [hitems, hanchor, Item.nodesFrom, Option.toList_none, List.map_nil, List.nil_append]
        by_cases hhead : ∀ m ∈ ns.head?, m.label.isSome
        · rw [nodesFrom_some hhead, List.cons.injEq]
          exact ⟨fun h => ⟨fun _ => ⟨rfl, hhead⟩, h.2⟩, fun h => ⟨rfl, h.2⟩⟩
        · -- The label moves to the content behind it, or the node behind it is lost.
          constructor
          · intro h
            exact absurd h (nodesFrom_some_ne hhead l.name)
          · rintro ⟨hlabel, -⟩
            exact absurd (hlabel rfl).2 hhead
    · rw [nodesFrom_of_ne hc, List.cons.injEq]
      exact ⟨fun h => ⟨fun he => absurd he hc, h.2⟩, fun h => ⟨rfl, h.2⟩⟩

theorem settled_map_unplaced (nodes : List Node) :
    Settled (nodes.map unplaced) ↔ Settled nodes := by
  induction nodes with
  | nil => rfl
  | cons n ns ih =>
    have hcontent : n.unplaced.content = .binary [] ↔ n.content = .binary [] := by
      constructor
      · intro h
        by_contra hne
        exact Content.unplaced_ne hne h
      · intro h
        unfold unplaced
        rw [h]
        rfl
    have hlabel : ∀ m : Node, m.unplaced.label.isSome = m.label.isSome := by
      intro m
      unfold unplaced
      rw [Option.isSome_map]
    rw [List.map_cons, Settled, Settled, ih, hcontent, hlabel, List.head?_map]
    simp [hlabel]

theorem isSome_head_nodesFrom (name : String) (xs : List Item) :
    ∀ m ∈ (Item.nodesFrom (some name) xs).head?, m.label.isSome := by
  induction xs with
  | nil => simp [Item.nodesFrom, anchor]
  | cons x xs ih =>
    cases x with
    | label other => simp [Item.nodesFrom, anchor]
    | content c => simp [Item.nodesFrom]
    | title other => exact ih

/-- Only data without bytes makes nodes that are not settled. -/
theorem settled_nodesFrom {xs : List Item} (h : .content (.binary []) ∉ xs)
    (pending : Option String) : Settled (Item.nodesFrom pending xs) := by
  induction xs generalizing pending with
  | nil => cases pending <;> simp [Item.nodesFrom, Settled, anchor]
  | cons x xs ih =>
    rw [List.mem_cons, not_or] at h
    cases x with
    | label name =>
      have hrest := ih h.2 (some name)
      cases pending with
      | none => exact hrest
      | some waiting => exact ⟨fun _ => ⟨rfl, isSome_head_nodesFrom name xs⟩, hrest⟩
    | content c =>
      refine ⟨?_, ih h.2 none⟩
      intro hc
      exact absurd (congrArg Item.content hc.symm) h.1
    | title name => exact ih h.2 pending

end Node

/-- A program that was read from a text has a name, or a node that is not just empty. -/
theorem Program.exists_named_or_labelled {source : String} {p : Program}
    (h : ofSource source = .ok p) (hs : Node.Settled p.nodes) :
    p.name.isSome ∨ ∃ n ∈ p.nodes, n.label.isSome ∨ n.content ≠ .binary [] := by
  cases hnodes : p.nodes with
  | nil =>
    left
    obtain ⟨xs, -, -, hne, hname, hxs⟩ := TextSays.of_source h
    rw [hnodes, List.map_nil] at hxs
    cases xs with
    | nil => exact absurd rfl hne
    | cons x xs =>
      cases x with
      | label name =>
        have hlabels := Item.labelNames_nodesFrom none (.label name :: xs)
        rw [← hxs] at hlabels
        cases hlabels
      | content c => cases hxs
      | title name =>
        cases hn : p.name with
        | none =>
          rw [hn] at hname
          cases hname
        | some s => rfl
  | cons n ns =>
    right
    rw [hnodes] at hs
    refine ⟨n, List.mem_cons_self, ?_⟩
    by_cases hc : n.content = .binary []
    · exact .inl (hs.1 hc).1
    · exact .inr hc

/-- The listing of a program that was read from a text is read as a program with the same
name and the same nodes, apart from places, just if each node without bytes has a label and
so has the node behind it. It always is if there is no data without bytes in the text. -/
theorem a_listing_keeps_settled_nodes {source : String} {p : Program}
    (h : Program.ofSource source = .ok p) :
    ((∃ q, Program.ofSource p.listing = .ok q ∧ q.name = p.name ∧
      q.nodes.map Node.unplaced = p.nodes.map Node.unplaced) ↔ Node.Settled p.nodes) ∧
    ((∀ xs, TextSays source xs → .content (.binary []) ∉ xs) → Node.Settled p.nodes) := by
  have hp := Program.writable_of_source h
  obtain ⟨xs, htext, -, hne, hname, hnodes⟩ := TextSays.of_source h
  refine ⟨?_, ?_⟩
  · rw [← Node.nodesFrom_items_iff]
    constructor
    · rintro ⟨q, hq, -, hsame⟩
      rw [← (hp.eq_of_listing hq).2, hsame]
    · intro hkept
      obtain ⟨q, hq⟩ := hp.exists_of_listing (Program.exists_named_or_labelled h
        ((Node.nodesFrom_items_iff p.nodes).1 hkept))
      obtain ⟨hqname, hqnodes⟩ := hp.eq_of_listing hq
      exact ⟨q, hq, hqname, hqnodes.trans hkept⟩
  · intro hdata
    rw [← Node.settled_map_unplaced, hnodes]
    exact Node.settled_nodesFrom (hdata xs ((htext xs).2 rfl)) none

/-- The first of two labels at one address has a node without bytes, which is kept. -/
theorem the_listing_of_two_labels_keeps_their_nodes :
    ∃ p, Program.ofSource "one:\ntwo: HALT" = .ok p ∧ p.nodes.map Node.unplaced =
        [.anchor ⟨"one", .start⟩,
          ⟨.instruction ⟨.halt, none, none, none⟩, some ⟨"two", .start⟩, .start⟩] ∧
      ∃ q, Program.ofSource p.listing = .ok q ∧ q.name = p.name ∧
        q.nodes.map Node.unplaced = p.nodes.map Node.unplaced := by
  have hread : (Program.ofSource "one:\ntwo: HALT").toOption.map
      (fun p => p.nodes.map Node.unplaced) = some [.anchor ⟨"one", .start⟩,
        ⟨.instruction ⟨.halt, none, none, none⟩, some ⟨"two", .start⟩, .start⟩] := by decide +kernel
  obtain ⟨p, hp, hnodes⟩ := Option.map_eq_some_iff.1 hread
  have h := toOption_eq_some_iff.1 hp
  have hsettled : Node.Settled p.nodes := by
    rw [← Node.settled_map_unplaced, hnodes]
    simp [Node.Settled, Node.anchor]
  exact ⟨p, h, hnodes, (a_listing_keeps_settled_nodes h).1.2 hsettled⟩

/-- The node of data without bytes is lost: nothing is left to be read. -/
theorem data_without_bytes_is_lost : ∃ p, Program.ofSource "PUT \"\"" = .ok p ∧
    p.nodes.map Node.unplaced = [⟨.binary [], none, .start⟩] ∧
      ∀ q, Program.ofSource p.listing ≠ .ok q := by
  have hread : (Program.ofSource "PUT \"\"").toOption.map (fun p => (p.nodes.map Node.unplaced,
      p.listing)) = some ([⟨.binary [], none, .start⟩], "\n") := by decide +kernel
  have hlost : (Program.ofSource "\n").isOk = false := by decide +kernel
  obtain ⟨p, hp, he⟩ := Option.map_eq_some_iff.1 hread
  obtain ⟨hnodes, hlisting⟩ := Prod.mk.inj he
  refine ⟨p, toOption_eq_some_iff.1 hp, hnodes, ?_⟩
  intro q hq
  rw [hlisting] at hq
  rw [hq] at hlost
  cases hlost

end WordMachine
