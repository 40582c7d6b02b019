-- The symbol tables of builds: which of them can be written, and what is read back. The lists
-- of references are never too long, since every use of a label takes four bytes of the image,
-- but any number of labels can stand at one address.
import WordMachine.Proofs.LabelOrder
import WordMachine.Proofs.ParsedPrograms
import WordMachine.Proofs.TableLimits

namespace WordMachine

/-! ## References -/

/-- Each node that uses a label takes four bytes. -/
theorem Placed.length_fixups_le {defines : LabelMap UInt16} {nodes : List Node}
    (h : ∀ n ∈ nodes, n.Encodable defines) (start : Nat) :
    4 * ((rowFrom [] start nodes).filterMap fixup?).length ≤ Node.span nodes := by
  induction nodes generalizing start with
  | nil => simp [rowFrom]
  | cons n nodes ih =>
    obtain ⟨hn, hnodes⟩ := List.forall_mem_cons.1 h
    have hrest := ih hnodes (start + n.byteLength)
    rw [rowFrom_cons, List.filterMap_cons, Node.span_cons]
    cases hf : fixup? ⟨start, n⟩ with
    | none =>
      simp only
      omega
    | some use =>
      have h4 := Node.byteLength_of_uses hn (fixup?_eq_some_iff.1 hf).1
      simp only [List.length_cons]
      omega

/-- A label has no more references than there are instructions in the image. -/
theorem Program.Compilable.length_references_le {p : Program} (hp : p.Compilable) (name : String) :
    4 * (p.image.references[name]?.getD []).length ≤ p.byteLength := by
  have hfixups : 4 * p.fixups.length ≤ p.byteLength :=
    Placed.length_fixups_le hp.encodable 0
  have huses : (LabelMap.usesOf name p.fixups).length ≤ p.fixups.length := by
    unfold LabelMap.usesOf
    rw [List.length_map]
    exact List.length_filter_le _ _
  rw [getElem?_references]
  by_cases h : LabelMap.usesOf name p.fixups = []
  · simp [h]
  · simp only [h, if_false, Option.getD_some]
    omega

/-! ## Labels -/

/-- There are as many labels in an image as on the nodes. -/
theorem Program.size_defines {p : Program} (h : (Node.labelNames p.nodes).Nodup) :
    p.defines.size = (Node.labelNames p.nodes).length := by
  rw [← Placed.names_of_defines 0 p.nodes] at h ⊢
  rw [List.length_map]
  exact LabelMap.size_ofList h

namespace SymbolTable.Lists

variable {t : SymbolTable} {references : LabelMap (List UInt16)} {labels : List (String × UInt16)}

theorem size_eq (h : t.Lists references labels) : t.size = labels.length := by
  unfold size
  rw [h.defines_eq, List.length_map]

theorem wellFormed (h : t.Lists references labels) : t.WellFormed := by
  refine ⟨?_, fun hm => ?_, fun hm => ?_⟩
  · rw [h.references_eq, List.length_map, h.size_eq]
  · rw [h.names_eq, if_pos hm, List.length_map, h.size_eq]
  · simp [h.names_eq, hm]

end SymbolTable.Lists

/-! ## Tables of builds -/

namespace Build

variable {debug : Bool} {source : String} {b : Build} (h : Build.ofSource debug source = .ok b)
include h

theorem compilable : b.program.Compilable := by
  obtain ⟨ts, -, -, -, hc, -⟩ := eq_ok_iff.1 h
  exact (Program.compile_eq_ok_iff.1 hc).1

theorem image_eq : b.image = b.program.image := by
  obtain ⟨ts, -, -, -, hc, -⟩ := eq_ok_iff.1 h
  exact (Program.compile_eq_ok_iff.1 hc).2

theorem nodup_labelNames : (Node.labelNames b.program.nodes).Nodup := by
  obtain ⟨ts, -, -, hp, -, -⟩ := eq_ok_iff.1 h
  obtain ⟨xs, -, hnodup, hnodes⟩ := Program.says_of_parse hp
  rw [Program.labelNames_of_items hnodes]
  exact hnodup

theorem symbolTable_eq : b.symbolTable = b.image.symbolTable (.ofDebug debug) := by
  obtain ⟨ts, -, -, -, -, ht⟩ := eq_ok_iff.1 h
  exact ht

theorem lists_symbolTable : b.symbolTable.Lists b.image.references b.image.sortedLabels := by
  rw [symbolTable_eq h]
  exact b.image.lists_symbolTable _

theorem mode_eq_debug_iff : b.symbolTable.mode = .debug ↔ debug = true := by
  rw [symbolTable_eq h]
  cases debug <;> simp [Image.symbolTable, SymbolMode.ofDebug]

theorem size_symbolTable : b.symbolTable.size = (Node.labelNames b.program.nodes).length := by
  rw [(lists_symbolTable h).size_eq, Image.length_sortedLabels, image_eq h]
  exact Program.size_defines (nodup_labelNames h)

theorem mem_sortedLabels_iff {name : String} :
    name ∈ b.image.sortedLabels.map (·.1) ↔ name ∈ Node.labelNames b.program.nodes := by
  have hdefines : b.image.defines = b.program.defines := by
    rw [image_eq h]
    rfl
  rw [← Program.mem_defines_iff, ← hdefines, Std.ExtTreeMap.mem_iff_isSome_getElem?,
    Option.isSome_iff_exists]
  simp [Image.mem_sortedLabels]

theorem length_references_le {sites : List UInt16} (hs : sites ∈ b.symbolTable.references) :
    4 * sites.length ≤ addressSpace := by
  rw [(lists_symbolTable h).references_eq] at hs
  obtain ⟨l, -, rfl⟩ := List.mem_map.1 hs
  have hp := compilable h
  have hle := hp.length_references_le l.1
  have hfits := hp.fits
  rw [image_eq h]
  omega

theorem length_references_lt {sites : List UInt16} (hs : sites ∈ b.symbolTable.references) :
    sites.length < UInt16.size := by
  have hle := length_references_le h hs
  simp only [addressSpace, UInt16.size] at hle ⊢
  omega

theorem fits_symbolTable_iff : b.symbolTable.Fits ↔
    (Node.labelNames b.program.nodes).length < UInt16.size ∧
      (debug = true → ∀ name ∈ Node.labelNames b.program.nodes,
        name.utf8ByteSize < UInt16.size) := by
  have hnames : debug = true → b.symbolTable.names = b.image.sortedLabels.map (·.1) := by
    intro hd
    rw [(lists_symbolTable h).names_eq, if_pos ((mode_eq_debug_iff h).2 hd)]
  rw [← size_symbolTable h]
  refine ⟨fun hf => ⟨hf.size_lt, fun hd name hn => ?_⟩, fun ⟨hsize, hlen⟩ => ⟨hsize, ?_, ?_⟩⟩
  · apply hf.names_lt ((mode_eq_debug_iff h).2 hd)
    rw [hnames hd]
    exact (mem_sortedLabels_iff h).2 hn
  · exact fun sites => length_references_lt h
  · intro hm name hn
    have hd := (mode_eq_debug_iff h).1 hm
    rw [hnames hd] at hn
    exact hlen hd name ((mem_sortedLabels_iff h).1 hn)

end Build

/-- The symbol table of a build can be written just if the program has no more than 65535
labels and, in debug mode, no name of more than 65535 bytes. Else one of these two is what is
wrong with it; no label can have too many references. What is written is read back as the
table. -/
theorem the_symbol_table_of_a_build_is_written_if_it_fits (debug : Bool) (source : String)
    (b : Build) (h : Build.ofSource debug source = .ok b) :
    ((∃ bytes, b.symbolBytes = .ok bytes) ↔
      (Node.labelNames b.program.nodes).length ≤ 65535 ∧
        (debug = true → ∀ name ∈ Node.labelNames b.program.nodes, name.utf8ByteSize ≤ 65535)) ∧
    (∀ e, b.symbolBytes = .error e → e = .tooLarge
      (if (Node.labelNames b.program.nodes).length ≤ 65535 then .names else .defines)) ∧
    (∀ sites ∈ b.symbolTable.references, 4 * sites.length ≤ 65536) ∧
    ∀ bytes, b.symbolBytes = .ok bytes → SymbolTable.decode bytes = .ok b.symbolTable := by
  have hsmall : ∀ n : Nat, n ≤ 65535 ↔ n < UInt16.size := fun n => Nat.le_iff_lt_add_one
  have hwell := (Build.lists_symbolTable h).wellFormed
  have hlen := And.intro hwell.references_length hwell.names_length
  simp only [hsmall]
  refine ⟨?_, fun e he => ?_, fun sites => Build.length_references_le h, fun bytes hb => ?_⟩
  · rw [← Build.fits_symbolTable_iff h]
    unfold Build.symbolBytes
    rw [SymbolTable.exists_encode_iff]
    exact and_iff_right hlen
  · rw [← Build.size_symbolTable h]
    have hsites : ∀ sites ∈ b.symbolTable.references, sites.length < UInt16.size :=
      fun sites => Build.length_references_lt h
    exact SymbolTable.encode_eq_error_of_references hlen hsites he
  · exact SymbolTable.decode_eq_ok_iff.2 ⟨hwell.names_eq_nil, hb⟩

/-- Two labels at one address, both of them used. -/
def twinLabels : String := "one:\ntwo: JUMP one\nJUMP two"

theorem the_symbol_table_of_twins_is_written : ∃ b, Build.ofSource true twinLabels = .ok b ∧
    Node.labelNames b.program.nodes = ["one", "two"] ∧
    ∃ bytes, b.symbolBytes = .ok bytes ∧ SymbolTable.decode bytes = .ok b.symbolTable := by
  have hbuild : (Build.ofSource true twinLabels).toOption.map
      (fun b => Node.labelNames b.program.nodes) = some ["one", "two"] := by
    decide +kernel
  obtain ⟨b, hb, hnames⟩ := Option.map_eq_some_iff.1 hbuild
  have h := toOption_eq_some_iff.1 hb
  obtain ⟨hwritten, -, -, hread⟩ :=
    the_symbol_table_of_a_build_is_written_if_it_fits true twinLabels b h
  rw [hnames] at hwritten
  obtain ⟨bytes, hbytes⟩ := hwritten.2 ⟨by decide, fun _ => by decide +kernel⟩
  exact ⟨b, h, hnames, bytes, hbytes, hread bytes hbytes⟩

end WordMachine
