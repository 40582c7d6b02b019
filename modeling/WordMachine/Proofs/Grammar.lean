-- The grammar of the source language: which meanings of tokens state which
-- items, and that the lines that state items make the nodes of these items.
import WordMachine.Proofs.Items
import WordMachine.Proofs.Lines

namespace WordMachine

/-! ## The grammar -/

/-- The meaning of the token of an immediate. -/
def Immediate.meaning : Immediate → TokenValue
  | constant value => .number value.toNat
  | label name _ => .identifier name

namespace Instruction

/-- The meanings of the tokens of the operands, without the commas. -/
def operands (i : Instruction Immediate) : List TokenValue :=
  (i.a.toList ++ i.b.toList).map .register ++ i.immediate.toList.map Immediate.meaning

/-- The meanings of the tokens of an instruction. -/
def meanings (i : Instruction Immediate) : List TokenValue :=
  .opcode i.opcode :: i.operands.intersperse (.punctuation .comma)

end Instruction

/-- The tokens with these meanings are a statement of the item. -/
inductive States : List TokenValue → Item → Prop
  | instruction {i : Instruction Immediate} (h : i.Fits) :
      States i.meanings (.content (.instruction i.unplaced))
  | text {literal : String} {bytes : Bytes} (h : Literal.read literal = .ok bytes) :
      States [.directive .put, .string literal] (.content (.binary bytes))
  | word {value : Nat} (h : value < UInt16.size) :
      States [.directive .put, .number value]
        (.content (.binary (Word.toBytes (UInt16.ofNat value))))
  | title (name : String) : States [.directive .name, .string name] (.title name)

/-- The tokens with these meanings are a line without a label. -/
inductive BareLineSays : List TokenValue → List Item → Prop
  | nothing : BareLineSays [] []
  | statement {vs : List TokenValue} {x : Item} (h : States vs x) : BareLineSays vs [x]

/-- The tokens with these meanings are a line that says the items. -/
inductive LineSays : List TokenValue → List Item → Prop
  | bare {vs : List TokenValue} {xs : List Item} (h : BareLineSays vs xs) : LineSays vs xs
  | labelled {vs : List TokenValue} {xs : List Item} (name : String) (h : BareLineSays vs xs) :
      LineSays (.identifier name :: .punctuation .colon :: vs) (.label name :: xs)

theorem LineSays.endOfLine_not_mem {vs : List TokenValue} {xs : List Item} (h : LineSays vs xs) :
    .endOfLine ∉ vs := by
  have hstatement : ∀ {vs x}, States vs x → .endOfLine ∉ vs := by
    intro vs x hx
    cases hx with
    | @instruction i hf =>
      unfold Instruction.meanings Instruction.operands
      rcases hf.registers with ⟨-, ha, hb⟩ | ⟨ra, -, ha, hb⟩ | ⟨ra, rb, -, ha, hb⟩ <;>
        rw [ha, hb] <;> cases i.immediate with
        | none => simp
        | some imm => cases imm <;> simp [Immediate.meaning]
    | text hr => simp
    | word hlt => simp
    | title name => simp
  have hbare : ∀ {vs xs}, BareLineSays vs xs → .endOfLine ∉ vs := by
    intro vs xs hb
    cases hb with
    | nothing => simp
    | statement hx => exact hstatement hx
  cases h with
  | bare hb => exact hbare hb
  | labelled name hb => simpa using hbare hb

theorem endOfLine_not_mem_of_lines {lines : List (List TokenValue)} {said : List (List Item)}
    (h : List.Forall₂ LineSays lines said) : ∀ vs ∈ lines, .endOfLine ∉ vs := by
  induction h with
  | nil => simp
  | cons hx _ ih => exact List.forall_mem_cons.2 ⟨hx.endOfLine_not_mem, ih⟩

/-! ## The nodes of items -/

namespace Item

/-- The label that the item defines. -/
def labelName? : Item → Option String
  | label name => some name
  | _ => none

/-- The name that the item gives to the document. -/
def title? : Item → Option String
  | title name => some name
  | _ => none

/-- The labels that are defined, in their order. -/
def labels (xs : List Item) : List String := xs.filterMap labelName?

/-- The names that the document is given, in their order. -/
def titles (xs : List Item) : List String := xs.filterMap title?

@[simp] theorem labels_content (c : Content) : labels [content c] = [] := rfl

@[simp] theorem labels_title (name : String) : labels [title name] = [] := rfl

/-- The nodes of items behind a label that waits for its content. A label that another
one follows, or the end, has a node of its own. -/
def nodesFrom (pending : Option String) : List Item → List Node
  | [] => pending.toList.map fun name => .anchor ⟨name, .start⟩
  | label name :: xs =>
    (pending.toList.map fun name => .anchor ⟨name, .start⟩) ++ nodesFrom (some name) xs
  | content c :: xs => ⟨c, pending.map fun name => ⟨name, .start⟩, .start⟩ :: nodesFrom none xs
  | title _ :: xs => nodesFrom pending xs

@[simp] theorem labels_append (xs ys : List Item) : labels (xs ++ ys) = labels xs ++ labels ys :=
  List.filterMap_append

@[simp] theorem titles_append (xs ys : List Item) : titles (xs ++ ys) = titles xs ++ titles ys :=
  List.filterMap_append

/-- Nodes with one item each. -/
def row (xs : List Item) : List Node := xs.filterMap node?

/-- It makes no difference to the items whether a label shares a node with its content. -/
theorem items_nodesFrom (pending : Option String) (xs : List Item) :
    (nodesFrom pending xs).flatMap Node.items =
      pending.toList.map .label ++ (row xs).flatMap Node.items := by
  have hanchor : ∀ p : Option String, (p.toList.map fun name => Node.anchor ⟨name, .start⟩).flatMap
      Node.items = p.toList.map .label := by
    intro p
    cases p <;> rfl
  induction xs generalizing pending with
  | nil => rw [nodesFrom, hanchor, row, List.filterMap_nil, List.flatMap_nil, List.append_nil]
  | cons x xs ih =>
    cases x with
    | label name =>
      rw [nodesFrom, List.flatMap_append, hanchor, ih]
      rfl
    | content c =>
      rw [nodesFrom, List.flatMap_cons, ih]
      cases pending <;> rfl
    | title name =>
      rw [nodesFrom, ih]
      rfl

/-- The nodes say just the items, apart from names of the document, if no content says
nothing. -/
theorem items_row {xs : List Item} (h : ∀ c, .content c ∈ xs → c.items = [.content c]) :
    (row xs).flatMap Node.items = xs.filter fun x => x.title?.isNone := by
  induction xs with
  | nil => rfl
  | cons x xs ih =>
    have hxs := ih fun c hc => h c (List.mem_cons_of_mem _ hc)
    cases x with
    | label name => exact congrArg (Item.label name :: ·) hxs
    | content c =>
      have hnode : row (content c :: xs) = ⟨c, none, .start⟩ :: row xs := rfl
      have hitems : Node.items ⟨c, none, .start⟩ = [content c] := h c List.mem_cons_self
      rw [hnode, List.flatMap_cons, hitems, hxs]
      rfl
    | title name => exact hxs

end Item

end WordMachine
