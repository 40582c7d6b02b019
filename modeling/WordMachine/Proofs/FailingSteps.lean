-- Failing steps. A step that fails has read its words and changed nothing else, it fails for
-- one of two reasons, and from then on the machine does nothing, whatever is asked of it.
import WordMachine.Proofs.Encoding
import WordMachine.Proofs.Runs
import WordMachine.Proofs.StepCases

namespace WordMachine

/-- The address of the instruction that a fault is about. -/
def Fault.address : Fault → UInt16
  | invalidOpcode _ address | divideByZero address => address

/-- A word cannot be decoded just if it is the word of no operation. -/
theorem Instruction.exists_decode_eq_error_iff {w : UInt16} :
    (∃ e, decode w = .error e) ↔ ∀ op : Opcode, ¬ op.Owns w := by
  constructor
  · rintro ⟨e, he⟩ op ho
    rw [decode_of_owns ho] at he
    cases he
  · intro h
    cases hd : decode w with
    | error e => exact ⟨e, rfl⟩
    | ok i => exact absurd (decode_eq_ok_iff.1 hd).1 (h i.opcode)

namespace Machine

/-! ## Stopped machines -/

/-- What can be asked of a machine. -/
inductive Command
  | step | run
  | runFor (limit : Nat)
  | interrupt (vector : UInt16)

/-- What a machine answers: the cycles it took or its fault, or whether an interrupt waits. -/
inductive Reply
  | cycles (result : Except Fault Nat)
  | waiting (answer : Bool)

/-- The reply of a machine that has stopped. -/
def Command.idleReply : Command → Reply
  | step | run | runFor _ => .cycles (.ok 0)
  | interrupt _ => .waiting false

variable {δ : Type}

section

variable [Device δ]

/-- The reply to a command, and the machine after it; none if the machine runs for ever. -/
def obey (m : Machine δ) : Command → Option (Reply × Machine δ)
  | .step => some (.cycles m.step.1, m.step.2)
  | .run => m.run.map fun r => (.cycles r.1, r.2)
  | .runFor limit => some (.cycles (m.runFor limit).1, (m.runFor limit).2)
  | .interrupt vector =>
    let asked := m.requestInterrupt vector
    some (.waiting asked.awaitsInterrupt, asked)

/-- The replies to some commands, and the machine after them. -/
def obeyAll (m : Machine δ) : List Command → Option (List Reply × Machine δ)
  | [] => some ([], m)
  | c :: cs => do
    let (reply, m) ← m.obey c
    let (replies, m) ← m.obeyAll cs
    return (reply :: replies, m)

theorem obey_of_halted {m : Machine δ} (h : m.halted = true) (c : Command) :
    m.obey c = some (c.idleReply, m) := by
  cases c with
  | step => simp only [obey, step_of_halted h, Command.idleReply]
  | run =>
    simp only [obey, run, runOn_of_halted h, Command.idleReply]
    rfl
  | runFor limit => simp only [obey, runFor_of_halted h, Command.idleReply]
  | interrupt vector => simp [obey, requestInterrupt, awaitsInterrupt, Command.idleReply, h]

theorem obeyAll_of_halted {m : Machine δ} (h : m.halted = true) (cs : List Command) :
    m.obeyAll cs = some (cs.map Command.idleReply, m) := by
  induction cs with
  | nil => rfl
  | cons c cs ih =>
    rw [obeyAll, obey_of_halted h]
    simp [ih]

end

/-! ## Faults -/

/-- The size of the immediate that the next step reads, if it can decode its word. -/
def immediateSize (m : Machine δ) : UInt16 :=
  match m.upcoming with
  | .ok i => if i.opcode.shape.takesImmediate then 2 else 0
  | .error _ => 0

/-- A fault has left the machine as it was, but for the words that were read, and for good. -/
structure FailsCleanly [Device δ] (m : Machine δ) (e : Fault) (stopped : Machine δ) : Prop where
  halted : stopped.halted = true
  registers_eq : stopped.registers = m.registers
  memory_eq : stopped.memory = m.memory
  device_eq : stopped.device = m.device
  interruptsEnabled_eq : stopped.interruptsEnabled = m.interruptsEnabled
  /-- The fault tells where the step began. -/
  address_eq : e.address = m.pc
  /-- The interrupt that was executed waits no more, and one that was not still waits. -/
  pendingInterrupt_eq : stopped.pendingInterrupt =
    if m.dispatched?.isSome then none else m.pendingInterrupt
  /-- The program counter has passed the instruction word, if it was read from memory, and
  the immediate, if the word has one. -/
  pc_eq : stopped.pc = m.pc + (if m.dispatched?.isSome then 0 else 2) + m.immediateSize
  /-- Whatever is asked of the machine, it does nothing more. -/
  still : ∀ cs, stopped.obeyAll cs = some (cs.map Command.idleReply, stopped)

/-- The faults of the next step of a machine. -/
structure FaultsOfStep [Device δ] (m : Machine δ) : Prop where
  clean : ∀ e stopped, m.step = (.error e, stopped) → m.FailsCleanly e stopped
  /-- A remainder by zero is reported just if the instruction takes one. -/
  divideByZero_iff : ∀ address, m.step.1 = .error (.divideByZero address) ↔
    address = m.pc ∧ ∃ i, m.upcoming = .ok i ∧ i.DividesByZero (m.get i.second)
  /-- A word is reported just if it is that of no operation. -/
  invalidOpcode_iff : ∀ word address, m.step.1 = .error (.invalidOpcode word address) ↔
    address = m.pc ∧ word = m.fetch.1 ∧ ∀ op : Opcode, ¬ op.Owns word

variable [Device δ]

theorem exists_step_eq_iff {m : Machine δ} {result : Except Fault Nat} :
    (∃ after, m.step = (result, after)) ↔ m.step.1 = result :=
  ⟨fun ⟨_, h⟩ => congrArg Prod.fst h, fun h => ⟨m.step.2, Prod.ext h rfl⟩⟩

/-- There are two reasons for a step to fail. -/
theorem step_eq_error_iff {m : Machine δ} (hr : m.halted = false) {e : Fault}
    {stopped : Machine δ} : m.step = (.error e, stopped) ↔
      (∃ d, m.upcoming = .error d ∧ e = .invalidOpcode m.fetch.1 m.pc ∧
        stopped = m.fetch.2.halt) ∨
      ∃ i, m.upcoming = .ok i ∧ i.DividesByZero (m.get i.second) ∧ e = .divideByZero m.pc ∧
        stopped = (m.ready i.opcode).halt := by
  cases hi : m.upcoming with
  | error d =>
    rw [step_of_invalid hr hi]
    simp [eq_comm]
  | ok i =>
    by_cases hd : i.DividesByZero (m.get i.second)
    · rw [step_of_dividesByZero hr hi hd]
      simp [hd, eq_comm]
    · rw [step_of_performed hr hi hd]
      simp [hd]

theorem failsCleanly_of_invalid {m : Machine δ} {e : InvalidOpcode} (hi : m.upcoming = .error e) :
    m.FailsCleanly (.invalidOpcode m.fetch.1 m.pc) m.fetch.2.halt := by
  rw [fetch_snd]
  refine ⟨rfl, rfl, rfl, rfl, rfl, rfl, rfl, ?_, obeyAll_of_halted rfl⟩
  unfold immediateSize
  rw [hi]
  exact (UInt16.add_zero _).symm

theorem failsCleanly_of_upcoming {m : Machine δ} {i : Instruction UInt16}
    (hi : m.upcoming = .ok i) :
    m.FailsCleanly (.divideByZero m.pc) (m.ready i.opcode).halt := by
  refine ⟨rfl, rfl, rfl, rfl, rfl, rfl, rfl, ?_, obeyAll_of_halted rfl⟩
  unfold immediateSize
  rw [hi]
  rfl

end Machine

/-- A failing step is clean and final: it leaves the registers, the memory, the device and the
interrupts as they were, tells where it began, has passed just the words that it read, and the
machine does nothing after it. It fails just if the word that it fetches is no instruction or
the instruction takes a remainder by zero. -/
theorem a_failing_step_is_clean_and_final {δ : Type} [Device δ] (m : Machine δ)
    (hr : m.halted = false) : m.FaultsOfStep := by
  refine ⟨?_, ?_, ?_⟩
  · intro e stopped h
    rcases (Machine.step_eq_error_iff hr).1 h with ⟨d, hi, rfl, rfl⟩ | ⟨i, hi, -, rfl, rfl⟩
    · exact Machine.failsCleanly_of_invalid hi
    · exact Machine.failsCleanly_of_upcoming hi
  · intro address
    simp only [← Machine.exists_step_eq_iff, Machine.step_eq_error_iff hr]
    constructor
    · rintro ⟨_, ⟨d, -, he, -⟩ | ⟨i, hi, hd, he, -⟩⟩
      · cases he
      · cases he
        exact ⟨rfl, i, hi, hd⟩
    · rintro ⟨rfl, i, hi, hd⟩
      exact ⟨_, .inr ⟨i, hi, hd, rfl, rfl⟩⟩
  · intro word address
    simp only [← Machine.exists_step_eq_iff, Machine.step_eq_error_iff hr,
      Machine.upcoming_eq_error_iff]
    constructor
    · rintro ⟨_, ⟨d, hd, he, -⟩ | ⟨i, -, -, he, -⟩⟩
      · cases he
        exact ⟨rfl, rfl, Instruction.exists_decode_eq_error_iff.1 ⟨d, hd⟩⟩
      · cases he
    · rintro ⟨rfl, rfl, hnone⟩
      obtain ⟨d, hd⟩ := Instruction.exists_decode_eq_error_iff.2 hnone
      exact ⟨_, .inl ⟨d, hd, rfl, rfl⟩⟩

/-- A machine that is about to execute an interrupt: register `A` modulo the word at the last
address. -/
def remainderByInterrupt : Machine NoDevice :=
  { Machine.boot .zeroed .mk with
    pc := 0xFFFF, interruptsEnabled := true, pendingInterrupt := some 0xAF50 }

/-- The immediate of the interrupt goes around the end of memory, and it is zero. -/
theorem an_interrupt_with_a_remainder_by_zero_stops_the_machine :
    remainderByInterrupt.halted = false ∧ ∃ stopped,
      remainderByInterrupt.step = (.error (.divideByZero 0xFFFF), stopped) ∧
        stopped.pc = 1 ∧ stopped.pendingInterrupt = none ∧
        stopped.obeyAll [.interrupt 0xFFF0, .run] =
          some ([.waiting false, .cycles (.ok 0)], stopped) := by
  have hr : remainderByInterrupt.halted = false := rfl
  have hzero : remainderByInterrupt.memory.readWord 0xFFFF = 0 := by
    change Word.ofBytes (Memory.zeroed.read _) (Memory.zeroed.read _) = 0
    rw [Memory.read_zeroed, Memory.read_zeroed]
    rfl
  have hi : remainderByInterrupt.upcoming = .ok ⟨.arithImm .mod, some .a, none, some 0⟩ := by
    have hdecode : Instruction.decode 0xAF50 = .ok ⟨.arithImm .mod, some .a, none, none⟩ := by
      decide
    rw [← hzero]
    unfold Machine.upcoming
    change (Instruction.decode 0xAF50).map _ = _
    rw [hdecode]
    rfl
  have hfaults := a_failing_step_is_clean_and_final remainderByInterrupt hr
  obtain ⟨stopped, hs⟩ := Machine.exists_step_eq_iff.2
    ((hfaults.divideByZero_iff 0xFFFF).2 ⟨rfl, _, hi, .inr ⟨rfl, rfl⟩⟩)
  have hclean := hfaults.clean _ _ hs
  have hpc := hclean.pc_eq
  unfold Machine.immediateSize at hpc
  rw [hi] at hpc
  exact ⟨hr, stopped, hs, hpc, hclean.pendingInterrupt_eq, hclean.still [.interrupt 0xFFF0, .run]⟩

end WordMachine
