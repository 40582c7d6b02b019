-- Places of errors. What the reader, the parser and the compiler say about a source text
-- they say about a place where a fragment starts or ends, or about the start of the text.
import WordMachine.Proofs.Lines
import WordMachine.Proofs.Spelling
import WordMachine.Proofs.Verdicts

namespace WordMachine

variable {P : Location → Prop}

/-! ## Results and errors -/

section

variable {α β : Type} {Q : α → Prop} {R : β → Prop} {x : Except SyntaxError α}

/-- The result satisfies `Q`, or the place of the error satisfies `P`. -/
def Reports (P : Location → Prop) (Q : α → Prop) : Except SyntaxError α → Prop
  | .ok a => Q a
  | .error e => P e.location

theorem Reports.bind {f : α → Except SyntaxError β} (hx : Reports P Q x)
    (hf : ∀ a, Q a → Reports P R (f a)) : Reports P R (x >>= f) := by
  cases x with
  | ok a => exact hf a hx
  | error e => exact hx

theorem Reports.map {f : α → β} (hx : Reports P Q x) (hf : ∀ a, Q a → R (f a)) :
    Reports P R (x.map f) := by
  cases x with
  | ok a => exact hf a hx
  | error e => exact hx

/-- What each step keeps, a whole run keeps. -/
theorem Reports.foldlM {f : α → β → Except SyntaxError α} {bs : List β} {a : α} (ha : Q a)
    (hf : ∀ a, Q a → ∀ b ∈ bs, Reports P Q (f a b)) : Reports P Q (bs.foldlM f a) := by
  induction bs generalizing a with
  | nil => exact ha
  | cons b bs ih =>
    rw [List.foldlM_cons]
    refine (hf a ha b List.mem_cons_self).bind fun a' ha' => ih ha' ?_
    exact fun c hc d hd => hf c hc d (List.mem_cons_of_mem b hd)

end

/-! ## Operands -/

/-- The places of the tokens satisfy `P`. -/
def TokensAt (P : Location → Prop) (ts : List Token) : Prop := ∀ t ∈ ts, P t.location

/-- The place of the label, if it is one, satisfies `P`. -/
def Immediate.At (P : Location → Prop) : Immediate → Prop
  | constant _ => True
  | label _ location => P location

/-- The place of the label that is used, if there is one, satisfies `P`. -/
def Content.At (P : Location → Prop) : Content → Prop
  | binary _ => True
  | instruction i => ∀ imm ∈ i.immediate, imm.At P

namespace Line

variable {line : Line} {ts : List Token}

theorem location_tooShort (line : Line) (expected : List TokenKind) :
    (line.tooShort expected).location = line.finish := by
  unfold tooShort finish
  cases line.stop <;> rfl

/-- A reader that looks at the next token, or misses it at the end of the line. -/
theorem reports_of_head {α : Type} {Q : α → Prop} {read : List Token → Except SyntaxError α}
    (hl : P line.finish) (ht : TokensAt P ts)
    (hnil : ∃ expected, read [] = .error (line.tooShort expected))
    (hcons : ∀ t us, P t.location → TokensAt P us → Reports P Q (read (t :: us))) :
    Reports P Q (read ts) := by
  cases ts with
  | nil =>
    obtain ⟨expected, hread⟩ := hnil
    rw [hread]
    show P (line.tooShort expected).location
    rwa [location_tooShort]
  | cons t us =>
    obtain ⟨h, hus⟩ := List.forall_mem_cons.1 ht
    exact hcons t us h hus

theorem reports_register (hl : P line.finish) (ht : TokensAt P ts) :
    Reports P (fun r => TokensAt P r.2) (line.register ts) := by
  refine reports_of_head hl ht ⟨_, rfl⟩ fun t us h hus => ?_
  simp only [register]
  split
  · exact hus
  · exact h

theorem reports_comma (hl : P line.finish) (ht : TokensAt P ts) :
    Reports P (TokensAt P) (line.comma ts) := by
  refine reports_of_head hl ht ⟨_, rfl⟩ fun t us h hus => ?_
  simp only [comma]
  split
  · exact hus
  · exact h

theorem reports_word {location : Location} (h : P location) (value : Nat) :
    Reports P (fun _ => True) (word value location) := by
  unfold word
  split
  · trivial
  · exact h

theorem reports_immediate (hl : P line.finish) (ht : TokensAt P ts) :
    Reports P (Immediate.At P) (line.immediate ts) := by
  have hstart : P ((ts.head?.map Token.location).getD line.finish) := by
    cases ts with
    | nil => exact hl
    | cons t ts => exact ht t List.mem_cons_self
  unfold immediate
  split
  · rename_i t
    have h := ht t List.mem_cons_self
    split
    · exact (reports_word h _).map fun _ _ => trivial
    · exact h
    · exact h
  · exact hstart

theorem reports_registers (hl : P line.finish) (count : Nat) (ht : TokensAt P ts) :
    Reports P (fun r => TokensAt P r.2) (line.registers count ts) := by
  unfold registers
  split
  · exact ht
  · exact (reports_register hl ht).bind fun r hr => hr
  · refine (reports_register hl ht).bind fun r hr => ?_
    refine (reports_comma hl hr).bind fun ts hts => ?_
    exact (reports_register hl hts).bind fun r hr => hr

theorem reports_instruction (hl : P line.finish) (op : Opcode) (ht : TokensAt P ts) :
    Reports P (fun r => (Content.instruction r.1).At P ∧ TokensAt P r.2)
      (line.instruction op ts) := by
  unfold instruction
  refine (reports_registers hl _ ht).bind fun r hr => ?_
  obtain ⟨⟨a, b⟩, us⟩ := r
  simp only
  have hread : ∀ vs, TokensAt P vs → Reports P
      (fun r => (Content.instruction r.1).At P ∧ TokensAt P r.2) (do
        let imm ← line.immediate vs
        return ((⟨op, a, b, some imm⟩ : Instruction Immediate), [])) := by
    intro vs hvs
    refine (reports_immediate hl hvs).bind fun imm himm => ?_
    exact ⟨by simpa [Content.At] using himm, by simp [TokensAt]⟩
  split
  · split
    · exact hread us hr
    · exact (reports_comma hl hr).bind hread
  · exact ⟨by simp [Content.At], hr⟩

theorem reports_documentName (hl : P line.finish) (ht : TokensAt P ts) :
    Reports P (fun r => TokensAt P r.2) (line.documentName ts) := by
  refine reports_of_head hl ht ⟨_, rfl⟩ fun t us h hus => ?_
  simp only [documentName]
  split
  · exact hus
  · exact h

theorem reports_bytes (hl : P line.finish) (ht : TokensAt P ts) :
    Reports P (fun r => TokensAt P r.2) (line.bytes ts) := by
  refine reports_of_head hl ht ⟨_, rfl⟩ fun t us h hus => ?_
  simp only [bytes]
  split
  · split
    · exact hus
    · exact h
  · exact (reports_word h _).map fun _ _ => hus
  · exact h

theorem reports_nothingLeft (ht : TokensAt P ts) :
    Reports P (fun _ => True) (nothingLeft ts) := by
  cases ts with
  | nil => trivial
  | cons t ts => exact ht t List.mem_cons_self

theorem at_of_label? {label : Label} {rest : List Token} (ht : TokensAt P ts)
    (h : label? ts = some (label, rest)) : P label.location ∧ TokensAt P rest := by
  unfold label? at h
  split at h
  · obtain ⟨hplace, hrest⟩ := List.forall_mem_cons.1 ht
    repeat' split at h
    all_goals cases h
    exact ⟨hplace, fun t hm => hrest t (List.mem_cons_of_mem _ hm)⟩
  · cases h

end Line

/-! ## Statements -/

/-- The place of the statement and that of the label that it uses satisfy `P`. -/
structure Node.At (P : Location → Prop) (n : Node) : Prop where
  location : P n.location
  content : n.content.At P

namespace Draft

/-- The places of the nodes and of the label that waits satisfy `P`. -/
structure At (P : Location → Prop) (d : Draft) : Prop where
  nodes : ∀ n ∈ d.nodes, n.At P
  pending : ∀ l ∈ d.pending, P l.location

variable {d : Draft} {l : Line} {ts : List Token}

theorem at_empty : empty.At P := ⟨by simp [empty], by simp [empty]⟩

theorem At.anchored (h : d.At P) : d.anchored.At P := by
  unfold Draft.anchored
  split
  · exact h
  · rename_i label hlabel
    exact ⟨List.forall_mem_cons.2 ⟨⟨h.pending label hlabel, trivial⟩, h.nodes⟩, by simp⟩

theorem At.define (h : d.At P) {label : Label} (hl : P label.location) :
    Reports P (At P) (d.define label) := by
  unfold Draft.define
  split
  · exact hl
  · exact ⟨h.anchored.nodes, by simpa using hl⟩

theorem At.add (h : d.At P) {content : Content} (hc : content.At P) {location : Location}
    (hl : P location) : (d.add content location).At P :=
  ⟨List.forall_mem_cons.2 ⟨⟨hl, hc⟩, h.nodes⟩, by simp [Draft.add]⟩

theorem At.setName (h : d.At P) (name : String) {location : Location} (hl : P location) :
    Reports P (At P) (d.setName name location) := by
  unfold Draft.setName
  split
  · exact hl
  · exact ⟨h.nodes, h.pending⟩

theorem At.statement (h : d.At P) (hl : P l.finish) (ht : TokensAt P ts) :
    Reports P (At P) (d.statement l ts) := by
  unfold Draft.statement
  split
  · exact h
  · rename_i t us
    obtain ⟨hplace, hus⟩ := List.forall_mem_cons.1 ht
    split
    · refine (Line.reports_instruction hl _ hus).bind fun r hr => ?_
      exact (Line.reports_nothingLeft hr.2).bind fun _ _ => h.add hr.1 hplace
    · refine (Line.reports_documentName hl hus).bind fun r hr => ?_
      refine (h.setName r.1 hplace).bind fun d' hd' => ?_
      exact (Line.reports_nothingLeft hr).bind fun _ _ => hd'
    · refine (Line.reports_bytes hl hus).bind fun r hr => ?_
      have hbytes : (Content.binary r.1).At P := trivial
      exact (Line.reports_nothingLeft hr).bind fun _ _ => h.add hbytes hplace
    · exact hplace
    · exact hplace

theorem At.line (h : d.At P) (hl : P l.finish) (ht : TokensAt P l.tokens) :
    Reports P (At P) (d.line l) := by
  unfold Draft.line
  split
  · rename_i label us hlabel
    obtain ⟨hplace, hus⟩ := Line.at_of_label? ht hlabel
    exact (h.define hplace).bind fun d' hd' => hd'.statement hl hus
  · exact h.statement hl ht

theorem At.finish (h : d.At P) : ∀ n ∈ d.finish.nodes, n.At P := by
  intro n hn
  exact h.anchored.nodes n (List.mem_reverse.1 hn)

end Draft

/-! ## Programs -/

/-- A line ends where a token starts or, without a line end, where its last token ends. -/
theorem Line.at_of_split {ts : List Token} (hstart : P .start)
    (ht : ∀ t ∈ ts, P t.location ∧ (t.endsLine = false → P t.source.finish)) :
    ∀ l ∈ split ts, TokensAt P l.tokens ∧ P l.finish := by
  have hgen : ∀ current : List Token, (∀ t ∈ current, P t.location ∧ P t.source.finish) →
      ∀ l ∈ splitFrom [] current ts, TokensAt P l.tokens ∧ P l.finish := by
    induction ts with
    | nil =>
      intro current hcurrent l hl
      unfold splitFrom at hl
      split at hl
      · simp at hl
      · rw [List.reverse_singleton, List.mem_singleton] at hl
        subst hl
        refine ⟨fun t hm => (hcurrent t (List.mem_reverse.1 hm)).1, ?_⟩
        unfold finish
        simp only [List.getLast?_reverse]
        cases current with
        | nil => exact hstart
        | cons t current => exact (hcurrent t List.mem_cons_self).2
    | cons t ts ih =>
      intro current hcurrent
      obtain ⟨⟨hplace, hfinish⟩, hts⟩ := List.forall_mem_cons.1 ht
      cases he : t.endsLine with
      | true =>
        rw [splitFrom_of_endsLine he]
        refine List.forall_mem_cons.2 ⟨⟨?_, hplace⟩, ih hts [] (by simp)⟩
        exact fun u hm => (hcurrent u (List.mem_reverse.1 hm)).1
      | false =>
        rw [splitFrom_of_not_endsLine he]
        exact ih hts (t :: current) (List.forall_mem_cons.2 ⟨⟨hplace, hfinish he⟩, hcurrent⟩)
  exact hgen [] (by simp)

namespace Program

/-- The parser takes all places from the tokens. -/
theorem reports_parse {ts : List Token} (hstart : P .start)
    (ht : ∀ t ∈ ts, P t.location ∧ (t.endsLine = false → P t.source.finish)) :
    Reports P (fun p => ∀ n ∈ p.nodes, n.At P) (parse ts) := by
  unfold parse
  split
  · exact hstart
  · have hlines := Line.at_of_split hstart ht
    have hdraft : Reports P (Draft.At P) ((Line.split ts).foldlM Draft.line .empty) := by
      refine .foldlM Draft.at_empty fun d hd l hl => ?_
      exact hd.line (hlines l hl).2 (hlines l hl).1
    exact hdraft.map fun d hd => hd.finish

/-- The compiler takes all places from the nodes. -/
theorem at_of_compile {p : Program} {e : CompileError} {place : Location}
    (hp : ∀ n ∈ p.nodes, n.At P) (he : p.compile = .error e) (hplace : e.location? = some place) :
    P place := by
  rcases compile_eq_error_iff.1 he with hsize | ⟨q, hr, hq⟩
  · obtain ⟨size, rfl, -⟩ := checkSize_eq_error_iff.1 hsize
    cases hplace
  · obtain ⟨hlocation, hcontent⟩ := hp q.node hr.standsAt.mem
    rcases Placed.encode_eq_error_iff.1 hq with ⟨-, rfl⟩ | ⟨-, ho⟩
    · cases hplace
    · cases ho with
      | unresolved hc hi hn =>
        cases hplace
        rw [hc] at hcontent
        exact hcontent _ hi
      | mismatch hc hl hf =>
        cases hplace
        exact hlocation

end Program

/-! ## Tokens -/

namespace Token

/-- A fragment without a meaning is reported at its place. -/
theorem at_of_ofFragments {fs : List Fragment} {e : TokenError} {place : Location}
    (h : ofFragments fs = .error e) (hplace : e.location? = some place) :
    ∃ f ∈ fs, f.location = place := by
  unfold ofFragments at h
  split at h
  · cases h
    cases hplace
  · obtain ⟨before, f, after, -, rfl, -, hf⟩ := mapM_eq_error_iff.1 (map_eq_error_iff.1 h)
    refine ⟨f, by simp, ?_⟩
    have hm := map_eq_error_iff.1 hf
    unfold Fragment.meaning at hm
    repeat' split at hm
    all_goals cases hm
    all_goals exact Option.some.inj hplace

end Token

end WordMachine
