-- What a step can do. The word that is fetched may be no instruction, or the instruction may
-- take a remainder by zero; else the instruction is performed by the machine as it stands behind
-- the words of it.
import WordMachine.Proofs.Steps

namespace WordMachine

/-- The instruction takes a remainder by zero, where `b` is the value of its second register. -/
def Instruction.DividesByZero (i : Instruction UInt16) (b : UInt16) : Prop :=
  (i.opcode = .arith .mod ∧ b = 0) ∨ (i.opcode = .arithImm .mod ∧ i.value = 0)

namespace Machine

variable {δ : Type}

/-! ## Fetching -/

/-- The address behind the next instruction word. The word of an interrupt stands at none. -/
def behindWord (m : Machine δ) : UInt16 := m.pc + if m.dispatched?.isSome then 0 else 2

/-- The address behind the next instruction word and the immediate of an operation. -/
def fallThrough (m : Machine δ) (op : Opcode) : UInt16 :=
  m.behindWord + if op.shape.takesImmediate then 2 else 0

/-- The interrupt that still waits when the next instruction word has been fetched. -/
def stillPending (m : Machine δ) : Option UInt16 :=
  if m.dispatched?.isSome then none else m.pendingInterrupt

/-- The instruction that the next step executes. Its immediate is the word behind the
instruction word. -/
def upcoming (m : Machine δ) : Except InvalidOpcode (Instruction UInt16) :=
  (Instruction.decode m.fetch.1).map fun i =>
    if i.opcode.shape.takesImmediate then
      { i with immediate := some (m.memory.readWord m.behindWord) }
    else i

/-- The machine when it has read all words of the next instruction. -/
def ready (m : Machine δ) (op : Opcode) : Machine δ :=
  { m with pc := m.fallThrough op, pendingInterrupt := m.stillPending }

theorem fetch_snd (m : Machine δ) :
    m.fetch.2 = { m with pc := m.behindWord, pendingInterrupt := m.stillPending } := by
  unfold fetch behindWord stillPending
  cases m.dispatched? with
  | some vector => simp
  | none => simp [nextWord]

theorem upcoming_eq_error_iff {m : Machine δ} {e : InvalidOpcode} :
    m.upcoming = .error e ↔ Instruction.decode m.fetch.1 = .error e := by
  unfold upcoming
  cases Instruction.decode m.fetch.1 with
  | error d => simp [Except.map]
  | ok i => simp [Except.map]

/-- The next instruction is read by fetching its word and then its immediate. -/
theorem fetchImmediate_of_upcoming {m : Machine δ} {i : Instruction UInt16}
    (h : m.upcoming = .ok i) :
    ∃ j, Instruction.decode m.fetch.1 = .ok j ∧
      m.fetch.2.fetchImmediate j = (i, m.ready i.opcode) := by
  unfold upcoming at h
  cases hj : Instruction.decode m.fetch.1 with
  | error e =>
    rw [hj] at h
    cases h
  | ok j =>
    rw [hj] at h
    cases h
    refine ⟨j, rfl, ?_⟩
    rw [fetch_snd]
    unfold fetchImmediate ready fallThrough
    by_cases ht : j.opcode.shape.takesImmediate = true
    · simp only [if_pos ht]
      rfl
    · simp only [if_neg ht]
      rw [UInt16.add_zero]

theorem dividesByZero_iff {m : Machine δ} {i : Instruction UInt16} :
    m.dividesByZero i = true ↔ i.DividesByZero (m.get i.second) := by
  unfold dividesByZero Instruction.DividesByZero
  split
  · rename_i h
    simp [h]
  · rename_i h
    simp [h]
  · rename_i h h'
    constructor
    · intro hf
      cases hf
    · rintro (⟨ho, -⟩ | ⟨ho, -⟩)
      · exact (h ho).elim
      · exact (h' ho).elim

/-! ## The three outcomes -/

variable [Device δ]

theorem execute_of_dividesByZero {m : Machine δ} {i : Instruction UInt16}
    (h : i.DividesByZero (m.get i.second)) (address : UInt16) :
    m.execute i address = (.error (.divideByZero address), m) := by
  unfold execute
  rw [if_pos (dividesByZero_iff.2 h)]

theorem execute_of_not_dividesByZero {m : Machine δ} {i : Instruction UInt16}
    (h : ¬ i.DividesByZero (m.get i.second)) (address : UInt16) :
    m.execute i address = (.ok (), m.perform i) := by
  unfold execute
  rw [if_neg (mt dividesByZero_iff.1 h)]

variable {m : Machine δ} (hr : m.halted = false)
include hr

theorem step_of_invalid {e : InvalidOpcode} (hi : m.upcoming = .error e) :
    m.step = (.error (.invalidOpcode m.fetch.1 m.pc), m.fetch.2.halt) := by
  rw [step_of_running hr]
  unfold executeWord
  rw [upcoming_eq_error_iff.1 hi]

/-- An instruction that is fetched decides how the step ends. -/
theorem step_of_upcoming {i : Instruction UInt16} (hi : m.upcoming = .ok i)
    {result : Except Fault Unit} {after : Machine δ} :
    (m.ready i.opcode).execute i m.pc = (result, after) → m.step = match result with
      | .ok () => (.ok i.opcode.cycles, after)
      | .error e => (.error e, after.halt) := by
  intro hx
  obtain ⟨j, hj, hready⟩ := fetchImmediate_of_upcoming hi
  rw [step_of_running hr]
  unfold executeWord
  simp only [hj, hready, hx]
  cases result <;> rfl

theorem step_of_dividesByZero {i : Instruction UInt16} (hi : m.upcoming = .ok i)
    (hd : i.DividesByZero (m.get i.second)) :
    m.step = (.error (.divideByZero m.pc), (m.ready i.opcode).halt) := by
  have hx := execute_of_dividesByZero (m := m.ready i.opcode) hd m.pc
  rw [step_of_upcoming hr hi hx]

theorem step_of_performed {i : Instruction UInt16} (hi : m.upcoming = .ok i)
    (hd : ¬ i.DividesByZero (m.get i.second)) :
    m.step = (.ok i.opcode.cycles, (m.ready i.opcode).perform i) := by
  have hx := execute_of_not_dividesByZero (m := m.ready i.opcode) hd m.pc
  rw [step_of_upcoming hr hi hx]

end Machine

end WordMachine
