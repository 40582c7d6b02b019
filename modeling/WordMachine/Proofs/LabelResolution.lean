-- Where labels stand: in the image of a source text, the address of a label is the number
-- of bytes that the statements before it put out.
import WordMachine.Assembler.Build
import WordMachine.Proofs.Reading
import WordMachine.Proofs.Recognition

namespace WordMachine

/-! ## Items one behind the other -/

namespace Item

/-- The bytes that an item puts into an image. -/
def output (defines : LabelMap UInt16) : Item → Bytes
  | content c => (⟨c, none, .start⟩ : Node).output defines
  | _ => []

theorem row_append (xs ys : List Item) : row (xs ++ ys) = row xs ++ row ys :=
  List.filterMap_append

theorem mem_labels {xs : List Item} {name : String} : name ∈ labels xs ↔ .label name ∈ xs := by
  unfold labels
  rw [List.mem_filterMap]
  constructor
  · rintro ⟨x, hx, hname⟩
    cases x with
    | label other =>
      cases hname
      exact hx
    | content c => cases hname
    | title other => cases hname
  · intro hx
    exact ⟨_, hx, rfl⟩

theorem labelNames_row (xs : List Item) : Node.labelNames (row xs) = labels xs := by
  unfold Node.labelNames row labels
  rw [List.filterMap_filterMap]
  congr 1
  funext x
  cases x <;> rfl

theorem output_row (defines : LabelMap UInt16) (xs : List Item) :
    (row xs).flatMap (Node.output defines) = xs.flatMap (output defines) := by
  induction xs with
  | nil => rfl
  | cons x xs ih =>
    rw [List.flatMap_cons, ← ih]
    cases x <;> rfl

theorem length_output (defines : LabelMap UInt16) (xs : List Item) :
    (xs.flatMap (output defines)).length = Node.span (row xs) := by
  rw [← output_row, Node.length_outputs]

end Item

/-! ## The image of items -/

/-- What an image says about the items of its source. -/
structure Image.Resolves (image : Image) (xs : List Item) : Prop where
  /-- The bytes are those that the items put out, in their order. -/
  bytes_eq : image.bytes = xs.flatMap (Item.output image.defines)
  /-- Just the labels among the items have an address. -/
  mem_defines : ∀ name, name ∈ image.defines ↔ .label name ∈ xs
  /-- The address of a label is the number of bytes that come before it. -/
  address_of : ∀ before name after, xs = before ++ .label name :: after →
    ∃ address, image.defines[name]? = some address ∧
      address.toNat = (before.flatMap (Item.output image.defines)).length
  /-- An instruction with a label as its immediate holds the address of the label behind
  its word. -/
  holds : ∀ before i after name location, xs = before ++ .content (.instruction i) :: after →
    i.immediate = some (.label name location) →
      ∃ address, image.defines[name]? = some address ∧
        (image.bytes.drop (before.flatMap (Item.output image.defines)).length).take 4 =
          Word.toBytes i.word ++ Word.toBytes address

theorem Image.Agrees.resolves {image other : Image} {xs : List Item} (ha : other.Agrees image)
    (h : other.Resolves xs) : image.Resolves xs := by
  obtain ⟨hbytes, hmem, haddress, hholds⟩ := h
  rw [ha.bytes, ha.defines] at hbytes
  rw [ha.defines] at hmem haddress
  rw [ha.bytes, ha.defines] at hholds
  exact ⟨hbytes, hmem, haddress, hholds⟩

namespace Program

/-- The program with one node for each item. -/
def ofItems (xs : List Item) : Program := .ofNodes (Item.row xs)

theorem nodes_ofItems (xs : List Item) : (ofItems xs).nodes = Item.row xs := rfl

/-- An item that makes a node stands behind those before it. -/
theorem standsAt_ofItems {x : Item} {n : Node} (hn : x.node? = some n)
    (before after : List Item) : Node.StandsAt (ofItems (before ++ x :: after)).nodes n
      (Node.span (Item.row before)) := by
  refine ⟨Item.row before, Item.row after, ?_, rfl⟩
  rw [nodes_ofItems, Item.row_append]
  unfold Item.row
  rw [List.filterMap_cons, hn]

theorem Compilable.resolves {xs : List Item} (hc : (ofItems xs).Compilable)
    (hdistinct : (Item.labels xs).Nodup) : (ofItems xs).image.Resolves xs := by
  have hbytes : (ofItems xs).image.bytes = xs.flatMap (Item.output (ofItems xs).defines) :=
    Item.output_row _ xs
  refine ⟨hbytes, ?_, ?_, ?_⟩
  · intro name
    rw [← Item.mem_labels, ← Item.labelNames_row]
    exact mem_defines_iff
  · rintro before name after rfl
    have hs := standsAt_ofItems (x := .label name) rfl before after
    have hlt := hc.labels_reachable _ _ hs rfl
    have hnat := UInt16.toNat_ofNat_of_lt' hlt
    refine ⟨_, (getElem?_defines hc.labels_reachable ?_).2 ⟨_, _, _, hs, rfl, rfl, hnat⟩, ?_⟩
    · rwa [nodes_ofItems, Item.labelNames_row]
    · rw [hnat, Item.length_output]
  · rintro before i after name location rfl hi
    have hs := standsAt_ofItems (x := .content (.instruction i)) rfl before after
    have he := hc.encodable _ hs.mem
    refine ⟨_, he.getElem?_of_uses ⟨i, location, rfl, hi⟩, ?_⟩
    rw [hbytes, Item.length_output, List.flatMap_append, ← Item.length_output, List.drop_left,
      List.flatMap_cons, Item.output, Node.output]
    simp only
    rw [Instruction.toBytes_resolved (he i rfl).2 hi]
    exact List.take_left' (by simp [Word.length_toBytes])

end Program

/-! ## Source texts -/

/-- The source text is lines that say the items. -/
def TextSays (source : String) (xs : List Item) : Prop :=
  ∃ vs, Reads source.toList vs ∧ SourceSays vs xs

theorem Program.ofSource_eq_ok_iff {source : String} {p : Program} :
    Program.ofSource source = .ok p ↔
    ∃ fs ts, Fragment.split source = .ok fs ∧ Token.ofFragments fs = .ok ts ∧
      Program.parse ts = .ok p := by
  unfold Program.ofSource
  simp only [bind_eq_ok_iff, mapError_eq_ok_iff]
  constructor
  · rintro ⟨fs, hf, ts, ht, hp⟩
    exact ⟨fs, ts, hf, ht, hp⟩
  · rintro ⟨fs, ts, hf, ht, hp⟩
    exact ⟨fs, hf, ts, ht, hp⟩

theorem Build.eq_ok_iff {debug : Bool} {source : String} {b : Build} :
    Build.ofSource debug source = .ok b ↔ ∃ ts, Fragment.split source = .ok b.fragments ∧
      Token.ofFragments b.fragments = .ok ts ∧ Program.parse ts = .ok b.program ∧
      b.program.compile = .ok b.image ∧ b.symbolTable = b.image.symbolTable (.ofDebug debug) := by
  unfold Build.ofSource
  simp only [bind_eq_ok_iff, mapError_eq_ok_iff, pure_eq_ok_iff]
  constructor
  · rintro ⟨fs, hf, ts, ht, p, hp, image, hi, rfl⟩
    exact ⟨ts, hf, ht, hp, hi, rfl⟩
  · rintro ⟨ts, hf, ht, hp, hi, hs⟩
    exact ⟨b.fragments, hf, ts, ht, b.program, hp, b.image, hi, by rw [← hs]⟩

/-- The image of a build is that of the program of its source. -/
theorem Build.exists_iff {debug : Bool} {source : String} {image : Image} :
    (∃ b, Build.ofSource debug source = .ok b ∧ b.image = image) ↔
      ∃ p, Program.ofSource source = .ok p ∧ p.compile = .ok image := by
  simp only [Build.eq_ok_iff, Program.ofSource_eq_ok_iff]
  constructor
  · rintro ⟨b, ⟨ts, hf, ht, hp, hc, -⟩, rfl⟩
    exact ⟨b.program, ⟨b.fragments, ts, hf, ht, hp⟩, hc⟩
  · rintro ⟨p, ⟨fs, ts, hf, ht, hp⟩, hc⟩
    exact ⟨⟨fs, p, image, image.symbolTable (.ofDebug debug)⟩, ⟨ts, hf, ht, hp, hc, rfl⟩, rfl⟩

/-- A text that says something, but no label twice and at most one name of the document, is
read as the program of what it says. -/
theorem TextSays.exists_program {source : String} {xs : List Item} (h : TextSays source xs)
    (hne : xs ≠ []) (hdistinct : (Item.labels xs).Nodup) (hone : (Item.titles xs).length ≤ 1) :
    ∃ p, Program.ofSource source = .ok p ∧ p.name.toList = Item.titles xs ∧
      p.nodes.map Node.unplaced = Item.nodesFrom none xs := by
  obtain ⟨vs, hreads, hsays⟩ := h
  have hvs : vs ≠ [] := by
    rintro rfl
    have hnone : SourceSays (([] : List Token).map Token.value) xs := hsays
    exact hne (hnone.dropEmptyLines_eq_nil_iff.1 rfl)
  obtain ⟨fs, ts, hf, ht, rfl⟩ := hreads.ofFragments hvs
  have hkept := mt hsays.dropEmptyLines_eq_nil_iff.1 hne
  obtain ⟨said, hsaid, rfl⟩ := sourceSays_iff.1 hsays
  obtain ⟨p, hp, hname, hnodes⟩ := Program.draft_of_lines hsaid hdistinct hone
  rw [← Program.parse_dropEmptyLines hkept] at hp
  exact ⟨p, Program.ofSource_eq_ok_iff.2 ⟨fs, _, hf, ht, hp⟩, hname, hnodes⟩

/-- A text that is read as a program says one row of items, and the program is theirs. -/
theorem TextSays.of_tokens {source : String} {fs : List Fragment} {ts : List Token} {p : Program}
    (hf : Fragment.split source = .ok fs) (ht : Token.ofFragments fs = .ok ts)
    (hp : Program.parse ts = .ok p) :
    ∃ xs, (∀ ys, TextSays source ys ↔ ys = xs) ∧ (Item.labels xs).Nodup ∧
      p.name.toList = Item.titles xs ∧ p.nodes.map Node.unplaced = Item.nodesFrom none xs := by
  obtain ⟨us, hreads, rfl⟩ := Reads.of_fragments hf ht
  obtain ⟨said, hsaid, hn, -, hname, hnodes, -⟩ :=
    Program.says_of_draft (Program.lines_of_parse hp)
  have hsays : SourceSays (us.map Token.value) said.flatten := sourceSays_iff.2 ⟨said, hsaid, rfl⟩
  refine ⟨said.flatten, ?_, hn, hname, hnodes⟩
  intro ys
  constructor
  · rintro ⟨vs, hvs, hys⟩
    rw [← hreads.unique hvs] at hys
    exact hys.unique hsays
  · rintro rfl
    exact ⟨_, hreads, hsays⟩

/-- A text that is read as a program says the items of its nodes and no others. -/
theorem TextSays.of_parse {source : String} {fs : List Fragment} {ts : List Token} {p : Program}
    (hf : Fragment.split source = .ok fs) (ht : Token.ofFragments fs = .ok ts)
    (hp : Program.parse ts = .ok p) :
    ∃ xs, (∀ ys, TextSays source ys ↔ ys = xs) ∧ (Item.labels xs).Nodup ∧
      p.nodes.flatMap Node.items = (Item.row xs).flatMap Node.items := by
  obtain ⟨xs, hsays, hn, -, hnodes⟩ := TextSays.of_tokens hf ht hp
  refine ⟨xs, hsays, hn, ?_⟩
  rw [← Node.items_map_unplaced, hnodes]
  exact Item.items_nodesFrom none xs

/-- A source text that is built says one row of items, and the image of the build resolves
their labels. -/
theorem every_label_is_resolved_to_where_it_stands (debug : Bool) (source : String) (b : Build)
    (h : Build.ofSource debug source = .ok b) :
    ∃ xs, (∀ ys, TextSays source ys ↔ ys = xs) ∧ b.image.Resolves xs := by
  obtain ⟨ts, hf, ht, hp, hcompile, -⟩ := Build.eq_ok_iff.1 h
  obtain ⟨xs, hsays, hdistinct, hitems⟩ := TextSays.of_parse hf ht hp
  -- The image is that of the program with one node for each item.
  obtain ⟨other, hother, hagrees⟩ := Program.compile_of_items (q := .ofItems xs) hitems hcompile
  obtain ⟨hc, rfl⟩ := Program.compile_eq_ok_iff.1 hother
  exact ⟨xs, hsays, hagrees.resolves (hc.resolves hdistinct)⟩

/-- Two labels at one address, with a comment, an empty line and the name of the document
between them, and a label at the end. -/
def stackedLabels : String :=
  "one: ; here\n\nNAME \"x\"\ntwo: JUMP end\nPUT \"hi\"\nJUMP one\nend:"

theorem the_labels_of_a_source_are_resolved : ∃ b, Build.ofSource true stackedLabels = .ok b ∧
    (∃ xs, (∀ ys, TextSays stackedLabels ys ↔ ys = xs) ∧ b.image.Resolves xs) ∧
    b.image.bytes = [0xDE, 0xAA, 0, 10, 0x68, 0x69, 0xDE, 0xAA, 0, 0] ∧
    b.image.defines.toList = [("end", 10), ("one", 0), ("two", 0)] := by
  have hbuild : (Build.ofSource true stackedLabels).toOption.map
      (fun b => (b.image.bytes, b.image.defines.toList)) =
        some ([0xDE, 0xAA, 0, 10, 0x68, 0x69, 0xDE, 0xAA, 0, 0],
          [("end", 10), ("one", 0), ("two", 0)]) := by
    decide +kernel
  obtain ⟨b, hb, himage⟩ := Option.map_eq_some_iff.1 hbuild
  have h := toOption_eq_some_iff.1 hb
  have hresolved := every_label_is_resolved_to_where_it_stands true stackedLabels b h
  exact ⟨b, h, hresolved, Prod.mk.inj himage⟩

end WordMachine
