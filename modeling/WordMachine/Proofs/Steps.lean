-- Steps. A step executes one instruction word, from memory or of an interrupt, and
-- no instruction but three changes whether the machine runs or takes interrupts.
import Mathlib.Logic.Function.Iterate
import WordMachine.Machine.Run

namespace WordMachine

/-! ## What instructions leave alone -/

/-- The part of a machine that no operand of an instruction reaches. -/
structure Control where
  interruptsEnabled : Bool
  pendingInterrupt : Option UInt16
  halted : Bool

namespace Machine

variable {δ : Type}

/-- The control part of a machine. -/
def control (m : Machine δ) : Control := ⟨m.interruptsEnabled, m.pendingInterrupt, m.halted⟩

@[simp] theorem control_set (m : Machine δ) (r : Register) (w : UInt16) :
    (m.set r w).control = m.control := rfl

@[simp] theorem control_jump (m : Machine δ) (target : UInt16) :
    (m.jump target).control = m.control := rfl

@[simp] theorem control_push (m : Machine δ) (w : UInt16) : (m.push w).control = m.control := rfl

@[simp] theorem control_pop (m : Machine δ) : m.pop.2.control = m.control := rfl

@[simp] theorem control_ret (m : Machine δ) : m.ret.control = m.control := rfl

@[simp] theorem control_call (m : Machine δ) (target : UInt16) :
    (m.call target).control = m.control := rfl

/-- Operations on registers that leave a part of the machine alone do so one after the other. -/
theorem part_foldl {α : Type} (part : Machine δ → α) {f : Machine δ → Register → Machine δ}
    (hf : ∀ m r, part (f m r) = part m) (rs : List Register) (m : Machine δ) :
    part (rs.foldl f m) = part m := by
  induction rs generalizing m with
  | nil => rfl
  | cons r rs ih => rw [List.foldl_cons, ih, hf]

@[simp] theorem control_pushAll (m : Machine δ) : m.pushAll.control = m.control := by
  apply part_foldl control
  intro m r
  exact control_push m _

@[simp] theorem control_popAll (m : Machine δ) : m.popAll.control = m.control := by
  apply part_foldl control
  intro m r
  simp

@[simp] theorem control_fetchImmediate (m : Machine δ) (i : Instruction UInt16) :
    (m.fetchImmediate i).2.control = m.control := by
  unfold fetchImmediate
  split <;> rfl

variable [Device δ]

@[simp] theorem control_input (m : Machine δ) (r : Register) (port : UInt16) :
    (m.input r port).control = m.control := rfl

@[simp] theorem control_output (m : Machine δ) (port w : UInt16) :
    (m.output port w).control = m.control := rfl

/-- Three instructions reach the control part, each to set one flag. -/
theorem control_perform (m : Machine δ) (i : Instruction UInt16) :
    (m.perform i).control =
      match i.opcode with
      | .halt => { m.control with halted := true }
      | .enableInterrupts => { m.control with interruptsEnabled := true }
      | .disableInterrupts => { m.control with interruptsEnabled := false }
      | _ => m.control := by
  unfold perform
  cases i.opcode with
  | jumpIf c => simp only; split <;> simp
  | retIf c => simp only; split <;> simp
  | jumpIfZero t => simp only; split <;> simp
  | retIfZero t => simp only; split <;> simp
  | pop => simp
  | halt => rfl
  | enableInterrupts => rfl
  | disableInterrupts => rfl
  | store => rfl
  | swapMemory => rfl
  | _ => simp

/-- No instruction asks for an interrupt or drops one. -/
theorem pendingInterrupt_execute (m : Machine δ) (i : Instruction UInt16) (address : UInt16) :
    (m.execute i address).2.pendingInterrupt = m.pendingInterrupt := by
  unfold execute
  split
  · rfl
  · have hc := congrArg Control.pendingInterrupt (m.control_perform i)
    refine Eq.trans hc ?_
    split <;> rfl

/-! ## The word of a step -/

/-- Executes an instruction word in the place of the one at `address`. -/
def executeWord (m : Machine δ) (word address : UInt16) : Except Fault Nat × Machine δ :=
  match Instruction.decode word with
  | .error _ => (.error (.invalidOpcode word address), m.halt)
  | .ok i =>
    let (i, m) := m.fetchImmediate i
    match m.execute i address with
    | (.ok (), m) => (.ok i.opcode.cycles, m)
    | (.error e, m) => (.error e, m.halt)

theorem pendingInterrupt_executeWord (m : Machine δ) (word address : UInt16) :
    (m.executeWord word address).2.pendingInterrupt = m.pendingInterrupt := by
  unfold executeWord
  split
  · rfl
  · rename_i i _
    have hi := congrArg Control.pendingInterrupt (m.control_fetchImmediate i)
    have he := (m.fetchImmediate i).2.pendingInterrupt_execute (m.fetchImmediate i).1 address
    simp only
    split
    all_goals
      rename_i hx
      rw [hx] at he
      exact he.trans hi

/-- A fault stops the machine. -/
theorem halted_of_executeWord_error {m : Machine δ} {word address : UInt16} {e : Fault}
    (h : (m.executeWord word address).1 = .error e) :
    (m.executeWord word address).2.halted = true := by
  unfold executeWord at h ⊢
  generalize Instruction.decode word = decoded at h ⊢
  cases decoded with
  | error _ => rfl
  | ok i =>
    simp only at h ⊢
    generalize (m.fetchImmediate i).2.execute (m.fetchImmediate i).1 address = r at h ⊢
    obtain ⟨_ | _, m'⟩ := r
    · rfl
    · cases h

theorem step_of_halted {m : Machine δ} (h : m.halted = true) : m.step = (.ok 0, m) := by
  unfold step
  rw [if_pos h]

theorem step_of_running {m : Machine δ} (h : m.halted = false) :
    m.step = m.fetch.2.executeWord m.fetch.1 m.pc := by
  unfold step
  rw [h]
  rfl

/-- A machine that takes interrupts executes the word of the one that waits. -/
theorem step_of_dispatched {m : Machine δ} (h : m.halted = false) {vector : UInt16}
    (hd : m.dispatched? = some vector) :
    m.step = { m with pendingInterrupt := none }.executeWord vector m.pc := by
  rw [step_of_running h]
  unfold fetch
  rw [hd]

/-! ## Runs -/

/-- The machine after one step. -/
def next (m : Machine δ) : Machine δ := m.step.2

theorem next_of_halted {m : Machine δ} (h : m.halted = true) : m.next = m := by
  unfold next
  rw [step_of_halted h]

theorem iterate_next_of_halted {m : Machine δ} (h : m.halted = true) (n : Nat) :
    next^[n] m = m := Function.iterate_fixed (next_of_halted h) n

theorem halted_of_step_error {m : Machine δ} {e : Fault} (h : m.step.1 = .error e) :
    m.next.halted = true := by
  unfold next
  cases hm : m.halted with
  | true =>
    rw [step_of_halted hm] at h
    cases h
  | false =>
    rw [step_of_running hm] at h ⊢
    exact halted_of_executeWord_error h

/-- A run is one step after the other, since a machine that has stopped stays as it is. -/
theorem runFrom_state (cycles limit : Nat) (m : Machine δ) :
    (m.runFrom cycles limit).2 = next^[limit] m := by
  induction limit generalizing cycles m with
  | zero => rfl
  | succ limit ih =>
    rw [runFrom, Function.iterate_succ_apply]
    by_cases hm : m.halted = true
    · rw [if_pos hm, next_of_halted hm, iterate_next_of_halted hm]
    · rw [if_neg hm]
      split
      · rename_i c m' hs
        rw [ih]
        unfold next
        rw [hs]
      · rename_i e m' hs
        have hh := halted_of_step_error (m := m) (e := e) (by rw [hs])
        rw [iterate_next_of_halted hh]
        unfold next
        rw [hs]

theorem runFor_state (limit : Nat) (m : Machine δ) : (m.runFor limit).2 = next^[limit] m :=
  runFrom_state 0 limit m

end Machine

end WordMachine
