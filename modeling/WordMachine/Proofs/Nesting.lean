-- Nested uses of the stack. Instructions that put something on the stack are paired with those
-- that take it off again, and each pair gets back what it put there, at every stack pointer,
-- as long as the words on the stack are no more than the memory has.
import WordMachine.Proofs.StackWords

namespace WordMachine

/-! ## Instructions that use the stack -/

/-- What two instructions that belong together keep on the stack. -/
inductive StackUse
  /-- The value of a register. -/
  | value
  /-- The address behind a call. -/
  | address
  /-- The values of all registers but the stack pointer. -/
  | registers
  deriving DecidableEq, Repr

namespace StackUse

/-- The number of words that it takes. -/
def width : StackUse → Nat
  | value | address => 1
  | registers => 15

variable {δ : Type}

/-- The words that a machine has of it. The first one comes to the top of the stack. -/
def content (use : StackUse) (i : Instruction UInt16) (m : Machine δ) : List UInt16 :=
  match use with
  | value => [m.get i.first]
  | address => [m.pc]
  | registers => Register.saved.reverse.map m.get

theorem length_content (use : StackUse) (i : Instruction UInt16) (m : Machine δ) :
    (use.content i m).length = use.width := by
  cases use <;> rfl

/-- The instruction puts it on the stack. -/
inductive Opens : StackUse → Instruction UInt16 → Prop
  | push {i : Instruction UInt16} (h : i.opcode = .push) : Opens value i
  | call {i : Instruction UInt16} (h : i.opcode = .call) : Opens address i
  | callReg {i : Instruction UInt16} (h : i.opcode = .callReg) : Opens address i
  | pushAll {i : Instruction UInt16} (h : i.opcode = .pushAll) : Opens registers i

/-- The instruction takes it off the stack of the machine: a conditional return does so if it
is taken. A value does not go to the stack pointer. -/
inductive Closes (m : Machine δ) : StackUse → Instruction UInt16 → Prop
  | pop {i : Instruction UInt16} (h : i.opcode = .pop) (hr : i.first ≠ .sp) : Closes m value i
  | ret {i : Instruction UInt16} (h : i.opcode = .ret) : Closes m address i
  | retIf {i : Instruction UInt16} {c : Comparison} (h : i.opcode = .retIf c)
      (ht : c.holds (m.get i.first) (m.get i.second) = true) : Closes m address i
  | retIfZero {i : Instruction UInt16} {t : ZeroTest} (h : i.opcode = .retIfZero t)
      (ht : t.holds (m.get i.first) = true) : Closes m address i
  | popAll {i : Instruction UInt16} (h : i.opcode = .popAll) : Closes m registers i

end StackUse

namespace Machine

variable {δ : Type}

theorem pushed_call (m : Machine δ) (target : UInt16) : Pushed [m.pc] m (m.call target) := by
  obtain ⟨hsp, hsame, htop⟩ := (pushed_nil m).push m.pc
  exact ⟨hsp, hsame, htop⟩

theorem popped_ret (m : Machine δ) : Popped [m.ret.pc] m m.ret := by
  obtain ⟨hsp, hmemory, htop⟩ := (popped_nil m.pop.2).of_pop
  exact ⟨hsp, hmemory, htop⟩

variable [Device δ]

/-- The machine after an instruction that does not come from its memory. -/
def emulate (m : Machine δ) (i : Instruction UInt16) : Machine δ := (m.execute i m.pc).2

/-- The machine after several instructions that do not come from its memory. -/
def emulateAll (m : Machine δ) (is : List (Instruction UInt16)) : Machine δ := is.foldl emulate m

theorem emulateAll_cons (m : Machine δ) (i : Instruction UInt16) (is : List (Instruction UInt16)) :
    m.emulateAll (i :: is) = (m.emulate i).emulateAll is := rfl

theorem emulateAll_append (m : Machine δ) (is js : List (Instruction UInt16)) :
    m.emulateAll (is ++ js) = (m.emulateAll is).emulateAll js := List.foldl_append

theorem emulate_of_not_dividesByZero {m : Machine δ} {i : Instruction UInt16}
    (h : m.dividesByZero i = false) : m.emulate i = m.perform i := by
  simp [emulate, execute, h]

theorem pushed_of_opens {use : StackUse} {i : Instruction UInt16} (h : use.Opens i)
    (m : Machine δ) : Pushed (use.content i m) m (m.emulate i) := by
  have hd : m.dividesByZero i = false := by
    cases h with | _ h => simp [dividesByZero, h]
  rw [emulate_of_not_dividesByZero hd]
  unfold perform
  cases h with
  | push h =>
    rw [h]
    exact (pushed_nil m).push _
  | call h =>
    rw [h]
    exact m.pushed_call i.value
  | callReg h =>
    rw [h]
    exact m.pushed_call (m.get i.first)
  | pushAll h =>
    rw [h]
    exact m.pushed_pushAll

theorem popped_of_closes {use : StackUse} {m : Machine δ} {i : Instruction UInt16}
    (h : use.Closes m i) : Popped (use.content i (m.emulate i)) m (m.emulate i) := by
  have hd : m.dividesByZero i = false := by
    cases h <;> simp [dividesByZero, *]
  rw [emulate_of_not_dividesByZero hd]
  unfold perform
  cases h with
  | pop h hr =>
    rw [h]
    have hone : [i.first].Nodup := by simp
    have hsp : .sp ∉ [i.first] := by simpa using hr.symm
    exact popped_foldl_popTo hone hsp m
  | ret h =>
    rw [h]
    exact m.popped_ret
  | retIf h ht =>
    simp only [h, ht, if_true]
    exact m.popped_ret
  | retIfZero h ht =>
    simp only [h, ht, if_true]
    exact m.popped_ret
  | popAll h =>
    rw [h]
    exact popped_foldl_popTo (by decide) (by decide) m

end Machine

/-! ## Instructions that leave the stack alone -/

/-- The memory and the stack pointer are the same. -/
structure Machine.KeepsStack {δ : Type} (m m' : Machine δ) : Prop where
  memory_eq : m'.memory = m.memory
  sp_eq : m'.get .sp = m.get .sp

theorem Machine.KeepsStack.balanced {δ : Type} {m m' : Machine δ} (h : m.KeepsStack m') (d : Nat) :
    m.Balanced d m' := by
  refine ⟨h.sp_eq, ?_⟩
  rw [h.memory_eq]
  exact .refl _ _ _

/-- The operation writes nothing to memory, and to no registers but its operands. -/
def Opcode.isQuiet : Opcode → Bool
  | store | swapMemory | push | pop | pushAll | popAll | call | callReg | ret | retIf _
  | retIfZero _ => false
  | _ => true

/-- The instruction does not name the stack pointer and writes nothing to memory. -/
def Instruction.Quiet (i : Instruction UInt16) : Prop :=
  (i.first ≠ .sp ∧ i.second ≠ .sp) ∧ i.opcode.isQuiet = true

instance (i : Instruction UInt16) : Decidable i.Quiet :=
  inferInstanceAs (Decidable ((_ ∧ _) ∧ _))

theorem Instruction.Quiet.keepsStack {δ : Type} [Device δ] {i : Instruction UInt16}
    (h : i.Quiet) (m : Machine δ) : m.KeepsStack (m.emulate i) := by
  obtain ⟨⟨ha, hb⟩, ho⟩ := h
  have hset : ∀ {r : Register} (m : Machine δ) (w : UInt16), r ≠ .sp → m.KeepsStack (m.set r w) :=
    fun m w hr => ⟨rfl, Machine.get_set_of_ne hr m w⟩
  unfold Machine.emulate Machine.execute
  by_cases hd : m.dividesByZero i = true
  · rw [if_pos hd]
    exact ⟨rfl, rfl⟩
  · rw [if_neg hd]
    change m.KeepsStack (m.perform i)
    unfold Machine.perform
    cases hop : i.opcode with
    | arithImm | inc | dec | not | neg | copyImm | shiftLeft | shiftRight => exact hset _ _ ha
    | arith | copy | load | high | low => exact hset _ _ hb
    | input | inputImm => exact ⟨rfl, Machine.get_set_of_ne ha _ _⟩
    | swap => exact ⟨rfl, (hset (m.set i.first _) _ hb).sp_eq.trans (hset m _ ha).sp_eq⟩
    | jumpIf c =>
      simp only
      split <;> exact ⟨rfl, rfl⟩
    | jumpIfZero t =>
      simp only
      split <;> exact ⟨rfl, rfl⟩
    | jump | jumpReg | output | outputImm | halt | enableInterrupts | disableInterrupts | nop =>
      exact ⟨rfl, rfl⟩
    | _ => simp [hop, Opcode.isQuiet] at ho

/-! ## Nestings -/

/-- A row of instructions in which those that put something on the stack and those that take it
off are paired. -/
inductive Nesting
  | nil
  /-- An instruction that does not use the stack, and what comes behind it. -/
  | still (i : Instruction UInt16) (rest : Nesting)
  /-- A pair with what comes between and behind the two. -/
  | pair (use : StackUse) (opener : Instruction UInt16) (inner : Nesting)
      (closer : Instruction UInt16) (rest : Nesting)

namespace Nesting

/-- The instructions in their order. -/
def instructions : Nesting → List (Instruction UInt16)
  | nil => []
  | still i rest => i :: rest.instructions
  | pair _ opener inner closer rest => opener :: (inner.instructions ++ closer :: rest.instructions)

/-- The number of words that are on the stack at the deepest point. -/
def depth : Nesting → Nat
  | nil => 0
  | still _ rest => rest.depth
  | pair use _ inner _ rest => max (use.width + inner.depth) rest.depth

variable {δ : Type} [Device δ]

/-- On the machine, each instruction does what it is there for: the pairs use the stack, and
the other instructions leave it alone. -/
def Runs : Nesting → Machine δ → Prop
  | nil, _ => True
  | still i rest, m => m.KeepsStack (m.emulate i) ∧ rest.Runs (m.emulate i)
  | pair use opener inner closer rest, m =>
    let opened := m.emulate opener
    let closing := opened.emulateAll inner.instructions
    (use.Opens opener ∧ use.Closes closing closer) ∧
      inner.Runs opened ∧ rest.Runs (closing.emulate closer)

/-- Each pair gets back from the stack what it put there. -/
def Restores : Nesting → Machine δ → Prop
  | nil, _ => True
  | still i rest, m => rest.Restores (m.emulate i)
  | pair use opener inner closer rest, m =>
    let opened := m.emulate opener
    let closed := (opened.emulateAll inner.instructions).emulate closer
    use.content closer closed = use.content opener m ∧
      inner.Restores opened ∧ rest.Restores closed

/-- What is on the stack below a nesting stays there, and the nesting leaves no more. -/
theorem restores_and_balanced {n : Nesting} {m : Machine δ} (hr : n.Runs m)
    (hd : n.depth ≤ 32768) :
    n.Restores m ∧ m.Balanced n.depth (m.emulateAll n.instructions) := by
  induction n generalizing m with
  | nil => exact ⟨trivial, rfl, .refl _ _ _⟩
  | still i rest ih =>
    obtain ⟨hkeeps, hrest⟩ := hr
    obtain ⟨hrestores, hbalanced⟩ := ih hrest hd
    exact ⟨hrestores, (hkeeps.balanced _).trans hbalanced⟩
  | pair use opener inner closer rest ihInner ihRest =>
    obtain ⟨⟨hopens, hcloses⟩, hinner, hrest⟩ := hr
    rw [depth, Nat.max_le] at hd
    obtain ⟨hin, hbetween⟩ := ihInner hinner (by omega)
    obtain ⟨hout, hbehind⟩ := ihRest hrest hd.2
    have hpushed := Machine.pushed_of_opens hopens m
    have hpopped := Machine.popped_of_closes hcloses
    have hwidth := use.length_content opener m
    have hlen : ∀ m' : Machine δ, (use.content closer m').length = (use.content opener m).length :=
      fun m' => (use.length_content closer m').trans hwidth.symm
    -- The words of the pair lie above all that the inner nesting writes to.
    obtain ⟨hback, hpair⟩ := hpushed.balanced hbetween hpopped (hlen _) (hwidth ▸ hd.1)
    rw [hwidth] at hpair
    refine ⟨⟨hback, hin, hout⟩, ?_⟩
    rw [instructions, Machine.emulateAll_cons, Machine.emulateAll_append, Machine.emulateAll_cons]
    exact (hpair.mono (Nat.le_max_left _ _)).trans (hbehind.mono (Nat.le_max_right _ _))

end Nesting

/-- The stack is last in, first out, wherever the stack pointer is: if a nesting is never deeper
than 32768 words, each of its pairs gets back the value, the address or the registers that it
put on the stack, the stack pointer ends where it began, and nothing has changed in memory
but the words below it down to the depth of the nesting. -/
theorem every_pair_gets_back_what_it_put_on_the_stack {δ : Type} [Device δ] (m : Machine δ)
    (n : Nesting) (hr : n.Runs m) (hd : n.depth ≤ 32768) :
    n.Restores m ∧ (m.emulateAll n.instructions).get .sp = m.get .sp ∧
      ∀ x, ¬ Memory.Below (m.get .sp) n.depth x →
        (m.emulateAll n.instructions).memory.read x = m.memory.read x := by
  obtain ⟨hrestores, hsp, hsame⟩ := Nesting.restores_and_balanced hr hd
  exact ⟨hrestores, hsp, hsame⟩

/-- A stack pointer at which the first word goes around the end of memory. -/
def oddStack : Machine NoDevice := ((Machine.boot .zeroed .mk).set .sp 1).set .a 5

/-- Sets register `C` to zero. -/
def clearC : Instruction UInt16 := ⟨.copyImm, some .c, none, some 0⟩

/-- A value is put on the stack from one register and taken off into another one, with a call
in between that saves all registers. -/
def callWithinPush : Nesting :=
  .pair .value ⟨.push, some .a, none, none⟩
    (.pair .address ⟨.call, none, none, some 0x1234⟩
      (.pair .registers ⟨.pushAll, none, none, none⟩
        (.still ⟨.copyImm, some .a, none, some 7⟩ .nil)
        ⟨.popAll, none, none, none⟩ (.still clearC .nil))
      ⟨.retIfZero .equal, some .c, none, none⟩ .nil)
    ⟨.pop, some .b, none, none⟩ .nil

theorem a_call_within_a_push_gives_both_back :
    callWithinPush.Runs oddStack ∧ callWithinPush.depth ≤ 32768 ∧
      (oddStack.emulateAll callWithinPush.instructions).get .b = 5 ∧
      (oddStack.emulateAll callWithinPush.instructions).get .sp = 1 := by
  have hclear : ∀ m : Machine NoDevice, (m.emulate clearC).get .c = 0 :=
    fun m => m.get_set_self .c 0
  have hr : callWithinPush.Runs oddStack := by
    refine ⟨⟨.push rfl, .pop rfl (by decide)⟩, ?_, trivial⟩
    refine ⟨⟨.call rfl, .retIfZero rfl ?_⟩, ?_, trivial⟩
    · exact congrArg ZeroTest.equal.holds (hclear _)
    · refine ⟨⟨.pushAll rfl, .popAll rfl⟩, ⟨?_, trivial⟩, ?_, trivial⟩
      · exact Instruction.Quiet.keepsStack (by decide) _
      · exact Instruction.Quiet.keepsStack (by decide) _
  have hd : callWithinPush.depth ≤ 32768 := by decide
  obtain ⟨⟨hvalue, -⟩, hsp, -⟩ := every_pair_gets_back_what_it_put_on_the_stack oddStack _ hr hd
  refine ⟨hr, hd, ?_, ?_⟩
  · exact (List.cons.inj hvalue).1
  · exact hsp

end WordMachine
