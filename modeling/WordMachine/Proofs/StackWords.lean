-- Words on the stack. The stack is a row of words from the stack pointer upwards, and what is
-- put on it takes up the words below the stack pointer. Both wrap around the end of memory,
-- and they stay apart as long as together they are no more than the whole memory.
import WordMachine.Machine.Execution
import WordMachine.Proofs.Words

namespace WordMachine

namespace Memory

/-! ## Words -/

theorem readWord_writeWord (m : Memory) (address w : UInt16) :
    (m.writeWord address w).readWord address = w := by
  have hne : address + 1 ≠ address := by grind
  simp [readWord, writeWord, read_write, hne]

theorem read_writeWord_of_ne {address x : UInt16} (h : address ≠ x) (h' : address + 1 ≠ x)
    (m : Memory) (w : UInt16) : (m.writeWord address w).read x = m.read x := by
  simp [writeWord, read_write, h, h']

/-- The words from an address on. -/
def words (m : Memory) (address : UInt16) : Nat → List UInt16
  | 0 => []
  | n + 1 => m.readWord address :: m.words (address + 2) n

theorem words_congr {m m' : Memory} {address : UInt16} {n : Nat}
    (h : ∀ i < 2 * n, m'.read (address + UInt16.ofNat i) = m.read (address + UInt16.ofNat i)) :
    m'.words address n = m.words address n := by
  induction n generalizing address with
  | zero => rfl
  | succ n ih =>
    have hlow := h 0 (by omega)
    have hhigh := h 1 (by omega)
    have hrest : m'.words (address + 2) n = m.words (address + 2) n := by
      refine ih fun i hi => ?_
      have hi := h (2 + i) (by omega)
      rwa [UInt16.ofNat_add, ← UInt16.add_assoc] at hi
    have hzero : address + UInt16.ofNat 0 = address := UInt16.add_zero address
    rw [hzero] at hlow
    unfold words readWord
    rw [hlow, hrest]
    exact congrArg (Word.ofBytes _ · :: _) hhigh

/-! ## The words below an address -/

/-- The byte at `x` is in one of the `d` words below an address. -/
def Below (address : UInt16) (d : Nat) (x : UInt16) : Prop :=
  ∃ k, k < 2 * d ∧ x = address - UInt16.ofNat (k + 1)

theorem Below.mono {address x : UInt16} {d d' : Nat} (h : Below address d x) (hd : d ≤ d') :
    Below address d' x := by
  obtain ⟨k, hk, rfl⟩ := h
  exact ⟨k, by omega, rfl⟩

/-- What is below an address `n` words further down. -/
theorem Below.of_sub {address x : UInt16} {n d : Nat}
    (h : Below (address - UInt16.ofNat (2 * n)) d x) : Below address (n + d) x := by
  obtain ⟨k, hk, rfl⟩ := h
  refine ⟨2 * n + k, by omega, ?_⟩
  rw [Nat.add_assoc, UInt16.ofNat_add (2 * n)]
  grind

/-- Memory is round, but an address is not below another one if it is close above. -/
theorem not_below_add {address : UInt16} {j d : Nat} (h : j + 2 * d < 65536) :
    ¬ Below address d (address + UInt16.ofNat j) := by
  rintro ⟨k, hk, he⟩
  have hround : UInt16.ofNat (j + (k + 1)) = 0 := by
    rw [UInt16.ofNat_add]
    grind
  have hnat := congrArg UInt16.toNat hround
  rw [UInt16.toNat_ofNat_of_lt' (by simp only [UInt16.size]; omega)] at hnat
  simp at hnat

/-- Outside the `d` words below an address, the second memory holds what the first one does. -/
def SameBut (address : UInt16) (d : Nat) (m m' : Memory) : Prop :=
  ∀ x, ¬ Below address d x → m'.read x = m.read x

theorem SameBut.refl (address : UInt16) (d : Nat) (m : Memory) : SameBut address d m m :=
  fun _ _ => rfl

theorem SameBut.mono {address : UInt16} {d d' : Nat} {m m' : Memory} (h : SameBut address d m m')
    (hd : d ≤ d') : SameBut address d' m m' :=
  fun x hx => h x fun hb => hx (hb.mono hd)

theorem SameBut.trans {address : UInt16} {d : Nat} {m m' m'' : Memory}
    (h : SameBut address d m m') (h' : SameBut address d m' m'') : SameBut address d m m'' :=
  fun x hx => (h' x hx).trans (h x hx)

theorem SameBut.of_sub {address : UInt16} {n d : Nat} {m m' : Memory}
    (h : SameBut (address - UInt16.ofNat (2 * n)) d m m') : SameBut address (n + d) m m' :=
  fun x hx => h x fun hb => hx hb.of_sub

theorem sameBut_writeWord (m : Memory) (address w : UInt16) :
    SameBut address 1 m (m.writeWord (address - 2) w) := by
  intro x hx
  refine read_writeWord_of_ne ?_ ?_ m w
  · rintro rfl
    exact hx ⟨1, by omega, rfl⟩
  · rintro rfl
    exact hx ⟨0, by omega, by grind⟩

/-- The words from an address on are other ones than those below it. -/
theorem SameBut.words_eq {address : UInt16} {d n : Nat} {m m' : Memory}
    (h : SameBut address d m m') (hn : n + d ≤ 32768) : m'.words address n = m.words address n :=
  words_congr fun i hi => h _ (not_below_add (by omega))

end Memory

namespace Machine

variable {δ : Type}

/-! ## The top of the stack -/

/-- The `n` words on top of the stack, the last one that was put there first. -/
def top (m : Machine δ) (n : Nat) : List UInt16 := m.memory.words (m.get .sp) n

theorem sp_push (m : Machine δ) (w : UInt16) : (m.push w).get .sp = m.get .sp - 2 :=
  m.get_set_self .sp _

theorem sp_pop (m : Machine δ) : m.pop.2.get .sp = m.get .sp + 2 := m.get_set_self .sp _

/-- The words that were on the stack come behind the one that is put there. -/
theorem top_push (m : Machine δ) (w : UInt16) {n : Nat} (hn : n + 1 ≤ 32768) :
    (m.push w).top (n + 1) = w :: m.top n := by
  have hword : (m.push w).memory.readWord (m.get .sp - 2) = w := Memory.readWord_writeWord _ _ _
  have hrest : (m.push w).memory.words (m.get .sp) n = m.top n :=
    (m.memory.sameBut_writeWord (m.get .sp) w).words_eq hn
  rw [top, sp_push, Memory.words, hword, UInt16.sub_add_cancel, hrest]

theorem top_succ (m : Machine δ) (n : Nat) : m.top (n + 1) = m.pop.1 :: m.pop.2.top n := by
  rw [top, top, sp_pop]
  rfl

/-! ## Words put on the stack and taken off it -/

/-- The second machine has words on its stack that the first one has not, the one on top
first. They go where the first machine keeps nothing. -/
structure Pushed (ws : List UInt16) (m m' : Machine δ) : Prop where
  sp_eq : m'.get .sp = m.get .sp - UInt16.ofNat (2 * ws.length)
  same : Memory.SameBut (m.get .sp) ws.length m.memory m'.memory
  top_eq : ws.length ≤ 32768 → m'.top ws.length = ws

/-- The second machine has the words no longer on its stack, and its memory is the same. -/
structure Popped (ws : List UInt16) (m m' : Machine δ) : Prop where
  sp_eq : m'.get .sp = m.get .sp + UInt16.ofNat (2 * ws.length)
  memory_eq : m'.memory = m.memory
  top_eq : m.top ws.length = ws

/-- The stack pointer of the second machine is that of the first one, and nothing but the
`d` words below it has changed in memory. -/
structure Balanced (d : Nat) (m m' : Machine δ) : Prop where
  sp_eq : m'.get .sp = m.get .sp
  same : Memory.SameBut (m.get .sp) d m.memory m'.memory

variable {m m' m'' : Machine δ}

theorem pushed_nil (m : Machine δ) : Pushed [] m m :=
  ⟨(UInt16.sub_zero _).symm, .refl _ _ _, fun _ => rfl⟩

theorem Pushed.push {ws : List UInt16} (h : Pushed ws m m') (w : UInt16) :
    Pushed (w :: ws) m (m'.push w) := by
  refine ⟨?_, ?_, fun hle => ?_⟩
  · rw [sp_push, h.sp_eq, List.length_cons, Nat.mul_succ, UInt16.ofNat_add]
    grind
  · have hword : Memory.SameBut (m'.get .sp) 1 m'.memory (m'.push w).memory :=
      m'.memory.sameBut_writeWord (m'.get .sp) w
    rw [h.sp_eq] at hword
    exact (h.same.mono (Nat.le_succ _)).trans hword.of_sub
  · rw [List.length_cons] at hle ⊢
    rw [top_push m' w hle, h.top_eq (by omega)]

theorem popped_nil (m : Machine δ) : Popped [] m m := ⟨(UInt16.add_zero _).symm, rfl, rfl⟩

theorem Popped.of_pop {ws : List UInt16} (h : Popped ws m.pop.2 m') :
    Popped (m.pop.1 :: ws) m m' := by
  refine ⟨?_, h.memory_eq, ?_⟩
  · rw [h.sp_eq, sp_pop, List.length_cons, Nat.mul_succ, UInt16.ofNat_add]
    grind
  · rw [List.length_cons, top_succ, h.top_eq]

theorem Balanced.mono {d d' : Nat} (h : Balanced d m m') (hd : d ≤ d') : Balanced d' m m' :=
  ⟨h.sp_eq, h.same.mono hd⟩

theorem Balanced.trans {d : Nat} (h : Balanced d m m') (h' : Balanced d m' m'') :
    Balanced d m m'' := by
  have hsame := h'.same
  rw [h.sp_eq] at hsame
  exact ⟨h'.sp_eq.trans h.sp_eq, h.same.trans hsame⟩

/-- As many words are taken off the stack as were put there, and in between the stack
pointer came back to them: then they are the same words. -/
theorem Pushed.balanced {vs ws : List UInt16} {d : Nat} {m₁ m₂ : Machine δ}
    (hpush : Pushed vs m m₁) (hinner : Balanced d m₁ m₂) (hpop : Popped ws m₂ m')
    (hlen : ws.length = vs.length) (hd : vs.length + d ≤ 32768) :
    ws = vs ∧ Balanced (vs.length + d) m m' := by
  refine ⟨?_, ?_, ?_⟩
  · have htop : m₂.top vs.length = m₁.top vs.length := by
      rw [top, hinner.sp_eq]
      exact hinner.same.words_eq hd
    rw [← hpop.top_eq, hlen, htop, hpush.top_eq (by omega)]
  · rw [hpop.sp_eq, hinner.sp_eq, hpush.sp_eq, hlen, UInt16.sub_add_cancel]
  · have hsame := hinner.same
    rw [hpush.sp_eq] at hsame
    rw [hpop.memory_eq]
    exact (hpush.same.mono (Nat.le_add_right _ _)).trans hsame.of_sub

/-! ## Registers put on the stack and taken off it -/

theorem get_push_of_ne {r : Register} (h : r ≠ .sp) (m : Machine δ) (w : UInt16) :
    (m.push w).get r = m.get r :=
  m.get_set_of_ne h.symm (m.get .sp - 2)

/-- Registers are put on the stack one after the other, so the last one comes to the top. -/
theorem Pushed.foldl_push {ws : List UInt16} {rs : List Register} (h : Pushed ws m m')
    (hget : ∀ r ∈ rs, m'.get r = m.get r) (hsp : .sp ∉ rs) :
    Pushed (rs.reverse.map m.get ++ ws) m (rs.foldl (fun m r => m.push (m.get r)) m') := by
  induction rs generalizing ws m' with
  | nil => exact h
  | cons r rs ih =>
    obtain ⟨hr, hrs⟩ := List.forall_mem_cons.1 hget
    have hfirst := h.push (m'.get r)
    have hrest := ih hfirst (fun s hs => ?_) fun hs => hsp (List.mem_cons_of_mem r hs)
    · simpa [hr] using hrest
    · rw [get_push_of_ne (fun he => hsp (he ▸ List.mem_cons_of_mem r hs)), hrs s hs]

theorem pushed_pushAll (m : Machine δ) : Pushed (Register.saved.reverse.map m.get) m m.pushAll := by
  have hkept : ∀ r ∈ Register.saved, m.get r = m.get r := fun _ _ => rfl
  have hall := (pushed_nil m).foldl_push hkept (by decide)
  rwa [List.append_nil] at hall

/-- The machine with the top word of the stack in a register. -/
def popTo (m : Machine δ) (r : Register) : Machine δ := m.pop.2.set r m.pop.1

theorem get_popTo_of_ne {r s : Register} (h : r ≠ s) (hs : s ≠ .sp) (m : Machine δ) :
    (m.popTo r).get s = m.get s := by
  unfold popTo
  rw [get_set_of_ne h]
  exact m.get_set_of_ne hs.symm (m.get .sp + 2)

theorem get_foldl_popTo {rs : List Register} {s : Register} (hs : s ∉ rs) (hsp : s ≠ .sp)
    (m : Machine δ) : (rs.foldl popTo m).get s = m.get s := by
  induction rs generalizing m with
  | nil => rfl
  | cons r rs ih =>
    rw [List.mem_cons, not_or] at hs
    rw [List.foldl_cons, ih hs.2, get_popTo_of_ne (Ne.symm hs.1) hsp]

theorem Popped.popTo {ws : List UInt16} {r : Register} (hr : r ≠ .sp)
    (h : Popped ws (m.popTo r) m') : Popped (m.pop.1 :: ws) m m' := by
  apply Popped.of_pop
  have hsp : (m.popTo r).get .sp = m.pop.2.get .sp := get_set_of_ne hr _ _
  refine ⟨?_, h.memory_eq, ?_⟩
  · rw [h.sp_eq, hsp]
  · have htop := h.top_eq
    rw [top, hsp] at htop
    exact htop

/-- Registers that take words off the stack one after the other hold them at the end. -/
theorem popped_foldl_popTo {rs : List Register} (hn : rs.Nodup) (hsp : .sp ∉ rs)
    (m : Machine δ) : Popped (rs.map (rs.foldl popTo m).get) m (rs.foldl popTo m) := by
  induction rs generalizing m with
  | nil => exact popped_nil m
  | cons r rs ih =>
    rw [List.nodup_cons] at hn
    rw [List.mem_cons, not_or] at hsp
    have hr : (rs.foldl popTo (m.popTo r)).get r = m.pop.1 := by
      rw [get_foldl_popTo hn.1 (Ne.symm hsp.1)]
      exact get_set_self _ _ _
    rw [List.foldl_cons, List.map_cons, hr]
    exact Popped.popTo (Ne.symm hsp.1) (ih hn.2 hsp.2 (m.popTo r))

end Machine

end WordMachine
