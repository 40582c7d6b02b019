-- Payloads: any bytes can be written as a literal. Between quotes the literal is
-- one token, and a line that puts it out has just these bytes as its image.
import WordMachine.Proofs.Rendering

namespace WordMachine

/-! ## Data as the only line -/

theorem SourceSays.of_line {vs : List TokenValue} {xs : List Item} (h : LineSays vs xs) :
    SourceSays vs xs := by
  refine ⟨[xs], ?_, by simp⟩
  rw [List.splitOn_eq_singleton h.endOfLine_not_mem]
  exact .cons h .nil

/-- Blanks have no meaning, and there may be none. -/
theorem Reads.gap {gap rest : List Char} {vs : List TokenValue}
    (hgap : ∀ c ∈ gap, isBlank c = true) (hr : StopsAt isBlank rest) (h : Reads rest vs) :
    Reads (gap ++ rest) vs := by
  cases gap with
  | nil => exact h
  | cons c cs =>
    obtain ⟨hc, hcs⟩ := List.forall_mem_cons.1 hgap
    exact blanks hc hcs hr h

theorem stopsAt_gap {gap rest : List Char} (hgap : ∀ c ∈ gap, isBlank c = true)
    (hr : StopsAt isNameChar rest) : StopsAt isNameChar (gap ++ rest) := by
  cases gap with
  | nil => exact hr
  | cons c cs =>
    apply stopsAt_cons
    have hc := hgap c List.mem_cons_self
    cases hname : isNameChar c with
    | false => rfl
    | true =>
      rw [isBlank_of_isNameChar hname] at hc
      cases hc

/-- A line that puts out a literal says the bytes of the literal. -/
theorem TextSays.put {gap literal : String} {bytes : Bytes}
    (hgap : ∀ c ∈ gap.toList, isBlank c = true)
    (hchars : ∀ c ∈ literal.toList, isInString c = true) (h : Literal.read literal = .ok bytes) :
    TextSays ("PUT" ++ gap ++ ("\"" ++ literal ++ "\"")) [.content (.binary bytes)] := by
  refine ⟨[.directive .put, .string literal], ?_, .of_line (.bare (.statement (.text h)))⟩
  have hput : TokenValue.ofName "PUT" = .directive .put := by decide +kernel
  have hq := readsAs_quoted hchars
  have hliteral : Reads (_ ++ []) [.string literal] := hq.reads nofun .nil
  rw [List.append_nil] at hliteral
  have hblank := hq.starts []
  rw [List.append_nil] at hblank
  have hname : StopsAt isNameChar ("\"" ++ literal ++ "\"").toList := by
    rw [String.toList_append, String.toList_append, List.append_assoc]
    exact stopsAt_cons (by decide)
  have hword := Reads.word (s := "PUT") (by decide +kernel) (stopsAt_gap hgap hname)
    (Reads.gap hgap hblank hliteral)
  rw [String.toList_append, String.toList_append, List.append_assoc, ← hput]
  exact hword

/-- The image of a program that is nothing but data is the data, if there is room for it. -/
theorem Program.compile_of_data {p : Program} {bytes : Bytes}
    (h : p.nodes.map Node.unplaced = [⟨.binary bytes, none, .start⟩]) :
    (p.Compilable ↔ bytes.length ≤ addressSpace) ∧ p.image.bytes = bytes := by
  obtain ⟨n, hn, hdata⟩ := List.map_eq_singleton_iff.1 h
  obtain ⟨hcontent, hlabel, -⟩ := Node.mk.inj hdata
  have hbytes : n.content = .binary bytes := by
    cases hc : n.content with
    | binary others => rwa [hc] at hcontent
    | instruction i =>
      rw [hc] at hcontent
      cases hcontent
  have hlength : p.byteLength = bytes.length := by
    rw [byteLength_eq_span, hn, Node.span_cons, Node.span_nil, Nat.add_zero, Node.byteLength,
      hbytes, Content.byteLength]
  constructor
  · rw [← hlength]
    refine ⟨Compilable.fits, fun hfits => ⟨?_, hfits, ?_⟩⟩
    · intro m offset hm hl
      rw [hn] at hm
      rw [List.mem_singleton.1 hm.mem, Option.map_eq_none_iff.1 hlabel] at hl
      cases hl
    · intro m hm i hi
      rw [hn] at hm
      rw [List.mem_singleton.1 hm, hbytes] at hi
      cases hi
  · show p.nodes.flatMap (Node.output p.defines) = bytes
    rw [hn, List.flatMap_singleton, Node.output, hbytes]

/-! ## The token of a literal -/

namespace Literal

/-- The literal of bytes between its quotes. -/
def quoted (bytes : Bytes) : String := "\"" ++ write bytes ++ "\""

/-- The literal of bytes as the only token of a text. -/
def token (bytes : Bytes) : Token := ⟨.string (write bytes), .string, quoted bytes, .start⟩

theorem toList_quoted (bytes : Bytes) :
    (quoted bytes).toList = '"' :: (write bytes).toList ++ ['"'] := by
  unfold quoted
  rw [String.toList_append, String.toList_append]
  rfl

theorem split_quoted (bytes : Bytes) :
    Fragment.split (quoted bytes) = .ok [(token bytes).source] := by
  have hchars : ∀ c ∈ (write bytes).toList, isInString c = true :=
    fun c hc => isInString_of_mem_write hc
  have hfirst := Lexeme.first?_quoted hchars []
  rw [← toList_quoted] at hfirst
  have hsource : (quoted bytes).isEmpty = false := by
    rw [String.isEmpty_eq_false_iff, ne_eq, ← String.toList_eq_nil_iff, toList_quoted]
    exact List.cons_ne_nil _ _
  unfold Fragment.split
  rw [hsource, if_neg Bool.false_ne_true, Fragment.splitFrom_of_first? hfirst, Fragment.splitFrom]
  simp only [String.ofList_toList]
  rfl

theorem ofFragments_quoted (bytes : Bytes) :
    Token.ofFragments [(token bytes).source] = .ok [token bytes] := by
  have hbody : stringBody (quoted bytes) = write bytes := by
    rw [← String.ofList_toList (s := quoted bytes), toList_quoted, stringBody_quoted,
      String.ofList_toList]
  have hmeaning : (token bytes).source.token? = .ok (some (token bytes)) := by
    unfold Fragment.token? Fragment.meaning token
    simp only [hbody]
    rfl
  unfold Token.ofFragments
  simp only [List.mapM_cons, hmeaning]
  rfl

end Literal

/-- Any bytes survive their literal. It is made of printable characters without a quote and
is read as the bytes. Between quotes it is one token, and data put out with it builds the
bytes just if there is room for them. -/
theorem any_bytes_survive_their_literal (debug : Bool) (bytes : Bytes) :
    (∀ c ∈ (Literal.write bytes).toList, Literal.IsPrintable c) ∧
      Literal.read (Literal.write bytes) = .ok bytes ∧
      (Fragment.split (Literal.quoted bytes) = .ok [(Literal.token bytes).source] ∧
        Token.ofFragments [(Literal.token bytes).source] = .ok [Literal.token bytes]) ∧
      ∀ gap : String, (∀ c ∈ gap.toList, isBlank c = true) →
        ((∃ b, Build.ofSource debug ("PUT" ++ gap ++ Literal.quoted bytes) = .ok b ∧
          b.image.bytes = bytes) ↔ bytes.length ≤ addressSpace) := by
  refine ⟨fun c hc => Literal.isPrintable_of_mem_write hc, Literal.read_write bytes,
    ⟨Literal.split_quoted bytes, Literal.ofFragments_quoted bytes⟩, ?_⟩
  intro gap hgap
  have hsays := TextSays.put hgap (fun c hc => Literal.isInString_of_mem_write hc)
    (Literal.read_write bytes)
  -- The line says the data and nothing else, so its program is the data alone.
  obtain ⟨p, hp, -, hnodes⟩ := hsays.exists_program (List.cons_ne_nil _ _) .nil (Nat.zero_le 1)
  obtain ⟨hroom, himage⟩ := Program.compile_of_data hnodes
  rw [← hroom]
  constructor
  · rintro ⟨b, hb, -⟩
    obtain ⟨q, hq, hc⟩ := Build.exists_iff.1 ⟨b, hb, rfl⟩
    rw [Literal.quoted, hp] at hq
    cases hq
    exact (Program.compile_eq_ok_iff.1 hc).1
  · intro hc
    have hcompile := Program.compile_eq_ok_iff.2 ⟨hc, rfl⟩
    obtain ⟨b, hb, hbi⟩ := Build.exists_iff.2 ⟨p, hp, hcompile⟩
    exact ⟨b, hb, by rw [hbi, himage]⟩

theorem a_quote_and_a_line_feed_survive_their_literal :
    Literal.write [0x22, 0x0A, 0x41] = "\\x22\\nA" ∧
      ∃ b, Build.ofSource true "PUT \t\"\\x22\\nA\"" = .ok b ∧
        b.image.bytes = [0x22, 0x0A, 0x41] := by
  have hwrite : Literal.write [0x22, 0x0A, 0x41] = "\\x22\\nA" := by decide +kernel
  obtain ⟨-, -, -, hbuild⟩ := any_bytes_survive_their_literal true [0x22, 0x0A, 0x41]
  have hgap : ∀ c ∈ " \t".toList, isBlank c = true := List.all_eq_true.1 (by decide)
  have hsource : "PUT" ++ " \t" ++ Literal.quoted [0x22, 0x0A, 0x41] =
      "PUT \t\"\\x22\\nA\"" := by
    rw [Literal.quoted, hwrite]
    rfl
  obtain ⟨b, hb, hbytes⟩ := (hbuild " \t" hgap).2 (by decide)
  rw [hsource] at hb
  exact ⟨hwrite, b, hb, hbytes⟩

end WordMachine
