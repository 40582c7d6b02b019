-- The state of the machine.
import WordMachine.Instruction.Register
import WordMachine.Machine.Device
import WordMachine.Machine.Memory

namespace WordMachine

/-- The values of the registers, by index. -/
abbrev Registers := Vector UInt16 16

/-- The machine, with a device of type `δ`. -/
structure Machine (δ : Type) where
  memory : Memory
  /-- The address of the next instruction. -/
  pc : UInt16
  registers : Registers
  interruptsEnabled : Bool
  /-- The instruction word of an interrupt that waits to be executed. -/
  pendingInterrupt : Option UInt16
  device : δ
  halted : Bool

namespace Machine

variable {δ : Type}

/-- A machine that is about to execute the instruction at address zero. -/
def boot (memory : Memory) (device : δ) : Machine δ :=
  ⟨memory, 0, Vector.replicate 16 0, false, none, device, false⟩

/-! ## Registers and stack -/

/-- The value of a register. -/
def get (m : Machine δ) (r : Register) : UInt16 := m.registers.get r.index

/-- The machine with a value in a register. -/
def set (m : Machine δ) (r : Register) (value : UInt16) : Machine δ :=
  { m with registers := m.registers.set r.index.val value }

theorem get_set (m : Machine δ) (r s : Register) (w : UInt16) :
    (m.set r w).get s = if r = s then w else m.get s := by
  change (m.registers.set r.index.val w)[s.index.val] = _
  rw [Vector.getElem_set]
  simp only [Fin.val_inj, Register.index_inj]
  rfl

@[simp] theorem get_set_self (m : Machine δ) (r : Register) (w : UInt16) :
    (m.set r w).get r = w := by
  simp [get_set]

theorem get_set_of_ne {r s : Register} (h : r ≠ s) (m : Machine δ) (w : UInt16) :
    (m.set r w).get s = m.get s := by
  simp [get_set, h]

/-- The machine about to execute the instruction at `target`. -/
def jump (m : Machine δ) (target : UInt16) : Machine δ := { m with pc := target }

/-- The machine with a word on top of the stack, which grows downwards. -/
def push (m : Machine δ) (value : UInt16) : Machine δ :=
  let sp := m.get .sp - 2
  let m := m.set .sp sp
  { m with memory := m.memory.writeWord sp value }

/-- The word on top of the stack, and the machine without it. -/
def pop (m : Machine δ) : UInt16 × Machine δ :=
  let sp := m.get .sp
  (m.memory.readWord sp, m.set .sp (sp + 2))

/-! ## Interrupts -/

/-- Asks for an interrupt with an instruction word. The machine takes notice
only while it runs with interrupts enabled, and a later request replaces one
that waits. -/
def requestInterrupt (m : Machine δ) (vector : UInt16) : Machine δ :=
  if !m.halted && m.interruptsEnabled then { m with pendingInterrupt := some vector } else m

/-- A running machine has an interrupt that waits. -/
def awaitsInterrupt (m : Machine δ) : Bool := !m.halted && m.pendingInterrupt.isSome

/-! ## Debugging -/

/-- A truth value, as the debugger shows it. -/
def flagText (b : Bool) : String := if b then "true" else "false"

/-- The state of the machine, as the debugger shows it. -/
def summary (m : Machine δ) : String :=
  let registers := ", ".intercalate (m.registers.toList.map fun w => toString w)
  let pending := match m.pendingInterrupt with
    | some vector => s!"Some({vector})"
    | none => "None"
  "Emulator \x7b context: Context \x7b " ++
    s!"pc: {m.pc}, r: [{registers}], interrupts_enabled: {flagText m.interruptsEnabled}" ++
    s!", pending_interrupt: {pending} \x7d, halted: {flagText m.halted} \x7d"

end Machine

end WordMachine
