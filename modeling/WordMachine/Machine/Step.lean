-- One step of the machine: fetch, decode, execute.
import WordMachine.Instruction.Decoding
import WordMachine.Machine.Execution

namespace WordMachine.Machine

variable {δ : Type}

/-- The instruction at the program counter. -/
def current (m : Machine δ) : Except InvalidOpcode (Instruction UInt16) := do
  let i ← Instruction.decode (m.memory.readWord m.pc)
  if i.opcode.shape.takesImmediate then
    return { i with immediate := some (m.memory.readWord (m.pc + 2)) }
  else
    return i

/-- The word at the program counter, and the machine behind it. -/
def nextWord (m : Machine δ) : UInt16 × Machine δ :=
  (m.memory.readWord m.pc, { m with pc := m.pc + 2 })

/-- The interrupt that is executed next, if there is one. -/
def dispatched? (m : Machine δ) : Option UInt16 :=
  if m.interruptsEnabled then m.pendingInterrupt else none

/-- The next instruction word: that of an interrupt, which waits no more, or
the word at the program counter. -/
def fetch (m : Machine δ) : UInt16 × Machine δ :=
  match m.dispatched? with
  | some vector => (vector, { m with pendingInterrupt := none })
  | none => m.nextWord

/-- The instruction with its immediate, which is the word at the program
counter. -/
def fetchImmediate (m : Machine δ) (i : Instruction UInt16) : Instruction UInt16 × Machine δ :=
  if i.opcode.shape.takesImmediate then
    let (value, m) := m.nextWord
    ({ i with immediate := some value }, m)
  else (i, m)

/-- The machine, stopped. -/
def halt (m : Machine δ) : Machine δ := { m with halted := true }

variable [Device δ]

/-- Executes the next instruction and returns its cycles. A fault stops the
machine, and a stopped machine does nothing. -/
def step (m : Machine δ) : Except Fault Nat × Machine δ :=
  if m.halted then (.ok 0, m)
  else
    let address := m.pc
    let (word, m) := m.fetch
    match Instruction.decode word with
    | .error _ => (.error (.invalidOpcode word address), m.halt)
    | .ok i =>
      let (i, m) := m.fetchImmediate i
      match m.execute i address with
      | (.ok (), m) => (.ok i.opcode.cycles, m)
      | (.error e, m) => (.error e, m.halt)

/-! ## Events -/

/-- What is worth a note while the machine runs. -/
inductive Event
  | dispatching (vector : UInt16)
  | faulted (e : Fault)
  | halted (address : UInt16)
  deriving DecidableEq, Repr

/-- The events of the next step. -/
def stepEvents (m : Machine δ) : List Event :=
  if m.halted then []
  else
    m.dispatched?.toList.map .dispatching ++
      match m.step with
      | (.error e, _) => [.faulted e]
      | (.ok _, after) => if after.halted then [.halted m.pc] else []

end WordMachine.Machine
