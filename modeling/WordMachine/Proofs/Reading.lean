-- Reading a text: the meanings of its lexemes, one behind the other. A piece of
-- text is checked with what follows it, since that decides where the piece ends.
import WordMachine.Instruction.Basic
import WordMachine.Proofs.Lexemes
import WordMachine.Proofs.Literals
import WordMachine.Proofs.Outcomes
import WordMachine.Source.Reading
import WordMachine.Source.Splitting

namespace WordMachine

/-- The content of a string is what stands between its quotes. -/
theorem stringBody_quoted (body : List Char) :
    stringBody (.ofList ('"' :: body ++ ['"'])) = .ofList body := by
  have hdrop : ∀ cs : List Char, Text.dropBytes? 1 ('"' :: cs) = some cs := by
    intro cs
    simp [Text.dropBytes?, show '"'.utf8Size = 1 from rfl]
  unfold stringBody Text.trimBytes?
  rw [String.toList_ofList, List.cons_append, hdrop, Option.bind_some, List.reverse_append,
    List.reverse_singleton, List.singleton_append, hdrop, Option.map_some, List.reverse_reverse,
    Option.getD_some]

/-- The digits of a hexadecimal number are what stands behind its first two characters. -/
theorem hexDigits_of_toList {s : String} {x : Char} {cs : List Char} (hx : x = 'x' ∨ x = 'X')
    (hs : s.toList = '0' :: x :: cs) : hexDigits s = cs := by
  have hsize : x.utf8Size = 1 := by rcases hx with rfl | rfl <;> rfl
  unfold hexDigits
  rw [hs]
  simp [Text.dropBytes?, show '0'.utf8Size = 1 from rfl, hsize]

/-! ## Where a lexeme ends -/

/-- The text does not go on with a character of the class. -/
def StopsAt (p : Char → Bool) (rest : List Char) : Prop := ∀ c ∈ rest.head?, p c = false

theorem stopsAt_cons {p : Char → Bool} {c : Char} {rest : List Char} (h : p c = false) :
    StopsAt p (c :: rest) := by
  intro d hd
  rw [List.head?_cons, Option.mem_some_iff] at hd
  rwa [← hd]

theorem StopsAt.mono {p q : Char → Bool} {rest : List Char} (h : StopsAt p rest)
    (hpq : ∀ c, q c = true → p c = true) : StopsAt q rest := by
  intro c hc
  cases hq : q c with
  | false => rfl
  | true =>
    have hp := h c hc
    rw [hpq c hq] at hp
    cases hp

theorem takeWhile_of_stopsAt {p : Char → Bool} {cs rest : List Char}
    (hcs : ∀ c ∈ cs, p c = true) (hr : StopsAt p rest) : (cs ++ rest).takeWhile p = cs := by
  rw [List.takeWhile_append_of_pos hcs]
  cases rest with
  | nil => simp
  | cons c rest => rw [List.takeWhile_cons, hr c rfl]; simp

theorem dropWhile_of_stopsAt {p : Char → Bool} {cs rest : List Char}
    (hcs : ∀ c ∈ cs, p c = true) (hr : StopsAt p rest) : (cs ++ rest).dropWhile p = rest := by
  rw [List.dropWhile_append_of_pos hcs]
  cases rest with
  | nil => rfl
  | cons c rest => rw [List.dropWhile_cons, hr c rfl]; simp

theorem Lexeme.run_append {kind : FragmentKind} {p : Char → Bool} {c : Char} {cs rest : List Char}
    (hcs : ∀ d ∈ cs, p d = true) (hr : StopsAt p rest) :
    run kind p c (cs ++ rest) = ⟨kind, c :: cs, rest⟩ := by
  unfold run
  rw [takeWhile_of_stopsAt hcs hr, dropWhile_of_stopsAt hcs hr]

/-! ## The meanings in a text -/

/-- The meaning of a lexeme, wherever it stands. -/
def Lexeme.meaning (x : Lexeme) : Except TokenError (Option TokenValue) :=
  Fragment.meaning ⟨x.kind, .ofList x.chars, .start⟩

/-- The text is all made of lexemes that mean these values. -/
inductive Reads : List Char → List TokenValue → Prop
  | nil : Reads [] []
  | cons {cs : List Char} {x : Lexeme} {v : Option TokenValue} {vs : List TokenValue} :
      Lexeme.first? cs = some x → x.meaning = .ok v → Reads x.rest vs → Reads cs (v.toList ++ vs)

theorem Reads.values_of_nil {vs : List TokenValue} (h : Reads [] vs) : vs = [] := by
  cases h with
  | nil => rfl
  | cons hx _ _ => cases hx

/-- Where a fragment stands decides only about the place of an error. -/
theorem Fragment.meaning_of_place {kind : FragmentKind} {s : String} {place : Location}
    {v : Option TokenValue} (h : meaning ⟨kind, s, place⟩ = .ok v) (other : Location) :
    meaning ⟨kind, s, other⟩ = .ok v := by
  cases kind <;> simp only [meaning] at h ⊢ <;> first
    | exact h
    | cases h
    | (split at h
       · exact h
       · cases h)

theorem Reads.splitFrom {cs : List Char} {vs : List TokenValue} (h : Reads cs vs)
    (done : List Fragment) (place : Location) :
    ∃ fs ts, Fragment.splitFrom done place cs = .ok (done.reverse ++ fs) ∧
      fs.mapM Fragment.token? = .ok ts ∧ (ts.filterMap id).map Token.value = vs ∧
      (cs ≠ [] → fs ≠ []) := by
  induction h generalizing done place with
  | nil =>
    refine ⟨[], [], ?_, rfl, rfl, fun h => absurd rfl h⟩
    unfold Fragment.splitFrom
    simp [Lexeme.first?]
  | @cons cs x v vs hx hm _ ih =>
    obtain ⟨fs, ts, hf, ht, hv, -⟩ := ih (⟨x.kind, .ofList x.chars, place⟩ :: done)
      (Fragment.placeAfter place x)
    have hm' := Fragment.meaning_of_place hm place
    refine ⟨⟨x.kind, .ofList x.chars, place⟩ :: fs,
      v.map (fun w => ⟨w, x.kind, .ofList x.chars, place⟩) :: ts, ?_, ?_, ?_, ?_⟩
    · rw [Fragment.splitFrom_of_first? hx, hf, List.reverse_cons, List.append_assoc]
      rfl
    · rw [List.mapM_cons, ht]
      unfold Fragment.token?
      rw [hm']
      rfl
    · rw [← hv]
      cases v <;> simp
    · intro _ hc
      cases hc

/-- A text that means something is cut into fragments, and these become tokens. -/
theorem Reads.ofFragments {source : String} {vs : List TokenValue} (h : Reads source.toList vs)
    (hne : vs ≠ []) : ∃ fs ts, Fragment.split source = .ok fs ∧
      Token.ofFragments fs = .ok (Token.dropEmptyLines ts) ∧ ts.map Token.value = vs := by
  obtain ⟨fs, found, hf, hfound, hvalues, hfs⟩ := h.splitFrom [] .start
  have hchars : source.toList ≠ [] := by
    intro he
    rw [he] at h
    exact hne h.values_of_nil
  have hsource : source.isEmpty = false := by
    rw [String.isEmpty_eq_false_iff, ne_eq, ← String.toList_eq_nil_iff]
    exact hchars
  have hnotEmpty : fs.isEmpty = false := by
    rw [List.isEmpty_eq_false_iff]
    exact hfs hchars
  refine ⟨fs, found.filterMap id, ?_, ?_, hvalues⟩
  · unfold Fragment.split
    rw [hsource]
    exact hf
  · unfold Token.ofFragments
    rw [hnotEmpty, hfound]
    rfl

namespace Reads

/-- Fragments that have a meaning were cut from a text that means the same. -/
theorem of_splitFrom {done fs : List Fragment} {place : Location} {cs : List Char}
    (h : Fragment.splitFrom done place cs = .ok fs) :
    ∃ new, fs = done.reverse ++ new ∧ ∀ found, new.mapM Fragment.token? = .ok found →
      Reads cs ((found.filterMap id).map Token.value) := by
  fun_induction Fragment.splitFrom done place cs with
  | case1 done place cs x hx ih =>
    obtain ⟨new, rfl, hnew⟩ := ih h
    refine ⟨⟨x.kind, .ofList x.chars, place⟩ :: new, by simp, ?_⟩
    intro found hfound
    simp only [List.mapM_cons, bind_eq_ok_iff, pure_eq_ok_iff] at hfound
    obtain ⟨t, ht, ts, hts, rfl⟩ := hfound
    unfold Fragment.token? at ht
    obtain ⟨v, hv, rfl⟩ := map_eq_ok_iff.1 ht
    have hread := cons hx (Fragment.meaning_of_place hv .start) (hnew ts hts)
    cases v with
    | none => exact hread
    | some v => exact hread
  | case2 done place hx =>
    cases h
    refine ⟨[], (List.append_nil _).symm, ?_⟩
    intro found hfound
    cases hfound
    exact .nil
  | case3 done place c cs hx => cases h

/-- The tokens of a text are what it means, without the ends of empty lines. -/
theorem of_fragments {source : String} {fs : List Fragment} {ts : List Token}
    (hf : Fragment.split source = .ok fs) (ht : Token.ofFragments fs = .ok ts) :
    ∃ us, Reads source.toList (us.map Token.value) ∧ ts = Token.dropEmptyLines us := by
  unfold Fragment.split at hf
  unfold Token.ofFragments at ht
  split at hf
  · cases hf
  · split at ht
    · cases ht
    · obtain ⟨new, rfl, hnew⟩ := of_splitFrom hf
      obtain ⟨found, hfound, rfl⟩ := map_eq_ok_iff.1 ht
      exact ⟨found.filterMap id, hnew found hfound, rfl⟩

/-- A text means one thing. -/
theorem unique {cs : List Char} {vs ws : List TokenValue} (h : Reads cs vs) (h' : Reads cs ws) :
    vs = ws := by
  induction h generalizing ws with
  | nil => exact h'.values_of_nil.symm
  | cons hx hm _ ih =>
    cases h' with
    | nil => cases hx
    | cons hy hn hrest =>
      rw [hx] at hy
      cases hy
      rw [hm] at hn
      cases hn
      rw [ih hrest]

end Reads

/-! ## Pieces of text -/

/-- The text is one name. -/
def isName (s : String) : Bool :=
  match s.toList with
  | [] => false
  | c :: cs => isNameStart c && cs.all isNameChar

namespace Lexeme

theorem first?_quoted {body : List Char} (hb : ∀ c ∈ body, isInString c = true)
    (rest : List Char) : first? ('"' :: body ++ '"' :: rest) =
      some ⟨.string, '"' :: body ++ ['"'], rest⟩ := by
  have hfirst : first? ('"' :: body ++ '"' :: rest) = quoted? '"' (body ++ '"' :: rest) := by
    simp [first?, isBlank]
  rw [hfirst, quoted?_of_all hb]

theorem meaning_symbol (p : Punctuation) (rest : List Char) :
    meaning ⟨.symbol, [p.char], rest⟩ = .ok (some (.punctuation p)) := by
  unfold meaning Fragment.meaning markOf?
  simp only [String.toList_ofList, Punctuation.ofChar?_char]

end Lexeme

namespace Reads

variable {rest : List Char} {vs : List TokenValue}

theorem newline (h : Reads rest vs) : Reads ('\n' :: rest) (.endOfLine :: vs) :=
  cons (v := some .endOfLine) (x := ⟨.endOfLine, ['\n'], rest⟩) rfl rfl h

/-- Blanks have no meaning. -/
theorem blanks {c : Char} {cs : List Char} (hc : isBlank c = true)
    (hcs : ∀ d ∈ cs, isBlank d = true) (hr : StopsAt isBlank rest) (h : Reads rest vs) :
    Reads (c :: cs ++ rest) vs := by
  have hx := Lexeme.first?_of_isBlank hc (cs ++ rest)
  rw [Lexeme.run_append hcs hr] at hx
  exact cons (v := none) hx rfl h

theorem spaces (n : Nat) (hr : StopsAt isBlank rest) (h : Reads rest vs) :
    Reads (List.replicate (n + 1) ' ' ++ rest) vs := by
  have hall : ∀ d ∈ List.replicate n ' ', isBlank d = true := by
    intro d hd
    rw [List.eq_of_mem_replicate hd]
    rfl
  rw [List.replicate_succ]
  exact blanks rfl hall hr h

theorem space (hr : StopsAt isBlank rest) (h : Reads rest vs) : Reads (' ' :: rest) vs :=
  spaces 0 hr h

theorem name {c : Char} {cs : List Char} (hc : isNameStart c = true)
    (hcs : ∀ d ∈ cs, isNameChar d = true) (hr : StopsAt isNameChar rest) (h : Reads rest vs) :
    Reads (c :: cs ++ rest) (.ofName (.ofList (c :: cs)) :: vs) := by
  have hx := Lexeme.first?_of_isNameStart hc (cs ++ rest)
  rw [Lexeme.run_append hcs hr] at hx
  exact cons (v := some _) hx rfl h

theorem comma (h : Reads rest vs) : Reads (',' :: rest) (.punctuation .comma :: vs) :=
  cons (x := ⟨.symbol, [','], rest⟩) rfl (Lexeme.meaning_symbol .comma rest) h

theorem colon (h : Reads rest vs) : Reads (':' :: rest) (.punctuation .colon :: vs) :=
  cons (x := ⟨.symbol, [':'], rest⟩) rfl (Lexeme.meaning_symbol .colon rest) h

/-- A quoted text means what stands between the quotes. -/
theorem quoted {body : List Char} (hb : ∀ c ∈ body, isInString c = true) (h : Reads rest vs) :
    Reads ('"' :: body ++ '"' :: rest) (.string (.ofList body) :: vs) := by
  have hx := Lexeme.first?_quoted hb rest
  refine cons (v := some (.string (.ofList body))) hx ?_ h
  unfold Lexeme.meaning Fragment.meaning
  rw [stringBody_quoted]

theorem hexNumber {digits : List Char} {n : Nat} (hd : ∀ d ∈ digits, isHexDigit d = true)
    (hne : digits ≠ []) (hn : smallNumber? 16 digits = some n) (hr : StopsAt isHexDigit rest)
    (h : Reads rest vs) : Reads ('0' :: 'x' :: digits ++ rest) (.number n :: vs) := by
  have hx : Lexeme.first? ('0' :: 'x' :: (digits ++ rest)) =
      some ⟨.hexNumber, '0' :: 'x' :: digits, rest⟩ := by
    have hnum : Lexeme.first? ('0' :: 'x' :: (digits ++ rest)) =
        some (Lexeme.number '0' ('x' :: (digits ++ rest))) := rfl
    rw [hnum]
    unfold Lexeme.number
    simp only [takeWhile_of_stopsAt hd hr, dropWhile_of_stopsAt hd hr]
    simp [hne]
  have hm : hexDigits (.ofList ('0' :: 'x' :: digits)) = digits :=
    hexDigits_of_toList (.inl rfl) String.toList_ofList
  refine cons (v := some (.number n)) hx ?_ h
  unfold Lexeme.meaning Fragment.meaning
  simp only [hm, hn]

/-- A name, whatever it means. -/
theorem word {s : String} (hs : isName s = true) (hr : StopsAt isNameChar rest)
    (h : Reads rest vs) : Reads (s.toList ++ rest) (.ofName s :: vs) := by
  unfold isName at hs
  split at hs
  · cases hs
  · rename_i c cs hcs
    rw [Bool.and_eq_true, List.all_eq_true] at hs
    have hw := name hs.1 hs.2 hr h
    rwa [← hcs, String.ofList_toList] at hw

/-- A word as it stands in an instruction. -/
theorem wordText (w : UInt16) (hr : StopsAt isNameChar rest) (h : Reads rest vs) :
    Reads ((Instruction.wordText w).toList ++ rest) (.number w.toNat :: vs) := by
  have hlist : (Instruction.wordText w).toList = '0' :: 'x' :: Text.hexField 4 w.toNat := by
    unfold Instruction.wordText Text.hexWord
    rw [String.toList_append, String.toList_ofList, String.toList_ofList]
    rfl
  have hne : Text.hexField 4 w.toNat ≠ [] := by
    intro he
    have hl := Text.length_hexField 4 w.toNat
    rw [he] at hl
    cases hl
  have hsmall : smallNumber? 16 (Text.hexField 4 w.toNat) = some w.toNat := by
    have hw := w.toNat_lt
    have hsize : UInt32.size = 4294967296 := rfl
    unfold smallNumber?
    rw [Text.readNumeral?_hexField (by decide) hw, Option.filter_some_pos]
    rw [decide_eq_true_eq]
    omega
  rw [hlist]
  exact hexNumber (fun d hd => Text.isHexDigit_of_mem_hexField hd) hne hsmall
    (hr.mono fun c => isNameChar_of_isHexDigit) h

end Reads

/-! ## Words of the language -/

theorem isName_mnemonic (op : Opcode) : isName op.mnemonic = true := by
  have hall : ∀ op ∈ Opcode.all, isName op.mnemonic = true := by decide +kernel
  exact hall op (Opcode.mem_all op)

theorem Register.mem_all (r : Register) : r ∈ Register.all := by
  cases r <;> decide

theorem isName_register (r : Register) : isName r.name = true := by
  cases r <;> decide +kernel

theorem ofName_mnemonic (op : Opcode) : TokenValue.ofName op.mnemonic = .opcode op := by
  have hall : ∀ op ∈ Opcode.all, TokenValue.ofName op.mnemonic = .opcode op := by decide +kernel
  exact hall op (Opcode.mem_all op)

theorem ofName_register (r : Register) : TokenValue.ofName r.name = .register r := by
  cases r <;> decide +kernel

/-- A name means a word of the language or itself. -/
theorem TokenValue.ofName_cases (s : String) : (∃ r, ofName s = .register r) ∨
    (∃ op, ofName s = .opcode op) ∨ (∃ d, ofName s = .directive d) ∨
      ofName s = .identifier s := by
  unfold ofName
  split
  · exact .inl ⟨_, rfl⟩
  · split
    · exact .inr (.inl ⟨_, rfl⟩)
    · split
      · exact .inr (.inr (.inl ⟨_, rfl⟩))
      · exact .inr (.inr (.inr rfl))

/-- A name that can stand for a label: it is no register, no mnemonic and no
directive, in upper or in lower case. -/
structure IsLabelName (s : String) : Prop where
  isName : isName s = true
  not_register : ∀ r : Register, r.name ≠ Text.upperCase s
  not_mnemonic : ∀ op : Opcode, op.mnemonic ≠ Text.upperCase s
  not_directive : ∀ d : Directive, d.word ≠ Text.upperCase s

/-- The names that can stand for labels are those that mean nothing else. -/
theorem isLabelName_iff {s : String} :
    IsLabelName s ↔ isName s = true ∧ TokenValue.ofName s = .identifier s := by
  have hr : Register.ofName? s = none ↔ ∀ r : Register, r.name ≠ Text.upperCase s := by
    unfold Register.ofName?
    rw [List.find?_eq_none]
    simp only [beq_iff_eq]
    exact ⟨fun h r => h r (Register.mem_all r), fun h r _ => h r⟩
  have ho : Opcode.ofMnemonic? s = none ↔ ∀ op : Opcode, op.mnemonic ≠ Text.upperCase s := by
    unfold Opcode.ofMnemonic?
    rw [List.find?_eq_none]
    simp only [beq_iff_eq]
    exact ⟨fun h op => h op (Opcode.mem_all op), fun h op _ => h op⟩
  have hd : Directive.ofWord? s = none ↔ ∀ d : Directive, d.word ≠ Text.upperCase s := by
    unfold Directive.ofWord?
    rw [List.find?_eq_none]
    simp only [beq_iff_eq]
    exact ⟨fun h d => h d (by cases d <;> decide), fun h d _ => h d⟩
  constructor
  · rintro ⟨hn, h1, h2, h3⟩
    refine ⟨hn, ?_⟩
    unfold TokenValue.ofName
    rw [hr.2 h1, ho.2 h2, hd.2 h3]
  · rintro ⟨hn, h⟩
    unfold TokenValue.ofName at h
    split at h
    · cases h
    · rename_i h1
      split at h
      · cases h
      · rename_i h2
        split at h
        · cases h
        · rename_i h3
          exact ⟨hn, hr.1 h1, ho.1 h2, hd.1 h3⟩

theorem IsLabelName.ofName {s : String} (h : IsLabelName s) :
    TokenValue.ofName s = .identifier s := (isLabelName_iff.1 h).2

instance (s : String) : Decidable (IsLabelName s) := decidable_of_iff _ isLabelName_iff.symm

end WordMachine
