-- What a step touches. Each instruction names the registers, the bytes of memory, the ports and
-- the flags that it may change, and a step changes nothing else, whichever registers are the
-- same and wherever addresses go around the end of memory.
import WordMachine.Proofs.StackWords
import WordMachine.Proofs.StepCases

namespace WordMachine

namespace Machine

variable {δ : Type}

/-! ## What an instruction names -/

/-- The instruction takes the machine elsewhere than behind its words. -/
def branches (m : Machine δ) (i : Instruction UInt16) : Bool :=
  match i.opcode with
  | .jump | .jumpReg | .call | .callReg | .ret => true
  | .jumpIf c | .retIf c => c.holds (m.get i.first) (m.get i.second)
  | .jumpIfZero t | .retIfZero t => t.holds (m.get i.first)
  | _ => false

/-- The registers that an instruction may change. -/
def destinations (m : Machine δ) (i : Instruction UInt16) : List Register :=
  match i.opcode with
  | .arith _ | .copy | .load | .swapMemory | .high | .low => [i.second]
  | .arithImm _ | .inc | .dec | .not | .neg | .input | .inputImm | .copyImm | .shiftLeft
  | .shiftRight => [i.first]
  | .swap => [i.first, i.second]
  | .pop => [i.first, .sp]
  | .popAll => .sp :: Register.saved
  | .push | .pushAll | .call | .callReg | .ret => [.sp]
  | .retIf _ | .retIfZero _ => if m.branches i then [.sp] else []
  | _ => []

/-- The instruction may change the byte at `x`. -/
def Writes (m : Machine δ) (i : Instruction UInt16) (x : UInt16) : Prop :=
  match i.opcode with
  | .store => m.get i.second = x ∨ m.get i.second + 1 = x
  | .swapMemory => m.get i.first = x ∨ m.get i.first + 1 = x
  | .push | .call | .callReg => Memory.Below (m.get .sp) 1 x
  | .pushAll => Memory.Below (m.get .sp) 15 x
  | _ => False

/-! ## Several registers on the stack -/

/-- Registers that are put on the stack reach only the memory and the stack pointer. -/
theorem foldl_push_eq (rs : List Register) (m : Machine δ) : ∃ memory registers,
    rs.foldl (fun m r => m.push (m.get r)) m = { m with memory, registers } := by
  induction rs generalizing m with
  | nil => exact ⟨m.memory, m.registers, rfl⟩
  | cons r rs ih =>
    obtain ⟨memory, registers, h⟩ := ih (m.push (m.get r))
    exact ⟨memory, registers, h⟩

/-- Registers that take words off the stack reach only registers. -/
theorem foldl_popTo_eq (rs : List Register) (m : Machine δ) : ∃ registers,
    rs.foldl popTo m = { m with registers } := by
  induction rs generalizing m with
  | nil => exact ⟨m.registers, rfl⟩
  | cons r rs ih =>
    obtain ⟨registers, h⟩ := ih (m.popTo r)
    exact ⟨registers, h⟩

theorem pushAll_eq (m : Machine δ) : ∃ memory registers,
    m.pushAll = { m with memory, registers } :=
  foldl_push_eq Register.saved m

theorem popAll_eq (m : Machine δ) : ∃ registers, m.popAll = { m with registers } :=
  foldl_popTo_eq Register.saved.reverse m

theorem get_pushAll {r : Register} (h : r ≠ .sp) (m : Machine δ) : m.pushAll.get r = m.get r :=
  part_foldl (·.get r) (fun m _ => get_push_of_ne h m _) Register.saved m

/-! ## What an instruction leaves alone -/

variable [Device δ]

theorem read_perform {m : Machine δ} {i : Instruction UInt16} {x : UInt16}
    (h : ¬ m.Writes i x) : (m.perform i).memory.read x = m.memory.read x := by
  obtain ⟨op, a, b, imm⟩ := i
  cases op with
  | store =>
    obtain ⟨hlow, hhigh⟩ := not_or.1 h
    exact Memory.read_writeWord_of_ne hlow hhigh m.memory _
  | swapMemory =>
    obtain ⟨hlow, hhigh⟩ := not_or.1 h
    exact Memory.read_writeWord_of_ne hlow hhigh m.memory _
  | push | call | callReg => exact m.memory.sameBut_writeWord (m.get .sp) _ x h
  | pushAll => exact m.pushed_pushAll.same x h
  | popAll =>
    obtain ⟨registers, he⟩ := m.popAll_eq
    exact congrArg (·.memory.read x) he
  | jumpIf | retIf | jumpIfZero | retIfZero =>
    simp only [perform]
    split <;> rfl
  | _ => rfl

theorem get_perform {m : Machine δ} {i : Instruction UInt16} {r : Register}
    (h : r ∉ m.destinations i) : (m.perform i).get r = m.get r := by
  have hne : ∀ {s}, s ∈ m.destinations i → s ≠ r := by
    rintro s hs rfl
    exact h hs
  obtain ⟨op, a, b, imm⟩ := i
  cases op with
  | arith | copy | load | swapMemory | high | low | arithImm | inc | dec | not | neg | input
  | inputImm | copyImm | shiftLeft | shiftRight =>
    exact get_set_of_ne (hne List.mem_cons_self) _ _
  | swap =>
    exact (get_set_of_ne (hne (List.mem_cons_of_mem _ List.mem_cons_self)) _ _).trans
      (get_set_of_ne (hne List.mem_cons_self) _ _)
  | pop =>
    exact (get_set_of_ne (hne List.mem_cons_self) _ _).trans
      (get_set_of_ne (hne (List.mem_cons_of_mem _ List.mem_cons_self)) _ _)
  | push => exact get_push_of_ne (hne List.mem_cons_self).symm m _
  | call | callReg => exact get_push_of_ne (hne List.mem_cons_self).symm m m.pc
  | pushAll => exact get_pushAll (hne List.mem_cons_self).symm m
  | popAll =>
    have hsaved : r ∉ Register.saved.reverse := by
      rw [List.mem_reverse]
      exact fun hs => h (List.mem_cons_of_mem _ hs)
    exact get_foldl_popTo hsaved (hne List.mem_cons_self).symm m
  | ret => exact get_set_of_ne (hne List.mem_cons_self) _ _
  | retIf | retIfZero =>
    simp only [perform]
    split
    · rename_i ht
      refine get_set_of_ne (hne ?_) _ _
      simp [destinations, branches, ht]
    · rfl
  | jumpIf | jumpIfZero =>
    simp only [perform]
    split <;> rfl
  | _ => rfl

theorem pc_perform {m : Machine δ} {i : Instruction UInt16} (h : m.branches i = false) :
    (m.perform i).pc = m.pc := by
  obtain ⟨op, a, b, imm⟩ := i
  cases op with
  | jump | jumpReg | call | callReg | ret => cases h
  | jumpIf | retIf | jumpIfZero | retIfZero =>
    simp only [branches] at h
    simp [perform, h]
  | pushAll =>
    obtain ⟨memory, registers, he⟩ := m.pushAll_eq
    exact congrArg (·.pc) he
  | popAll =>
    obtain ⟨registers, he⟩ := m.popAll_eq
    exact congrArg (·.pc) he
  | _ => rfl

/-- Four instructions reach the device, each through one port. -/
theorem device_perform (m : Machine δ) (i : Instruction UInt16) :
    (m.perform i).device =
      match i.opcode with
      | .input => (Device.input m.device (m.get i.second)).2
      | .inputImm => (Device.input m.device i.value).2
      | .output => Device.output m.device (m.get i.first) (m.get i.second)
      | .outputImm => Device.output m.device i.value (m.get i.first)
      | _ => m.device := by
  obtain ⟨op, a, b, imm⟩ := i
  cases op with
  | pushAll =>
    obtain ⟨memory, registers, he⟩ := m.pushAll_eq
    exact congrArg (·.device) he
  | popAll =>
    obtain ⟨registers, he⟩ := m.popAll_eq
    exact congrArg (·.device) he
  | jumpIf | retIf | jumpIfZero | retIfZero =>
    simp only [perform]
    split <;> rfl
  | _ => rfl

end Machine

/-! ## Steps -/

/-- After a step that executed an instruction, the machine differs only in what the
instruction names. -/
structure Machine.TouchesOnly (m : Machine QueueDevice) (i : Instruction UInt16)
    (after : Machine QueueDevice) : Prop where
  read_eq : ∀ x, ¬ m.Writes i x → after.memory.read x = m.memory.read x
  get_eq : ∀ r, r ∉ m.destinations i → after.get r = m.get r
  /-- An input takes one value from the queue, if there is any. -/
  inputs_eq : after.device.inputs =
    match i.opcode with
    | .input | .inputImm => m.device.inputs.tail
    | _ => m.device.inputs
  /-- An output is noted once, with its port. -/
  outputs_eq : after.device.outputs =
    match i.opcode with
    | .output => m.device.outputs.push (m.get i.first, m.get i.second)
    | .outputImm => m.device.outputs.push (i.value, m.get i.first)
    | _ => m.device.outputs
  interruptsEnabled_eq : after.interruptsEnabled =
    match i.opcode with
    | .enableInterrupts => true
    | .disableInterrupts => false
    | _ => m.interruptsEnabled
  halted_iff : after.halted = true ↔ i.opcode = .halt
  pendingInterrupt_eq : after.pendingInterrupt = m.stillPending
  pc_eq : m.branches i = false → after.pc = m.fallThrough i.opcode

theorem QueueDevice.inputs_input (d : QueueDevice) (port : UInt16) :
    (Device.input d port).2.inputs = d.inputs.tail := by
  obtain ⟨_ | ⟨value, rest⟩, outputs⟩ := d <;> rfl

theorem QueueDevice.outputs_input (d : QueueDevice) (port : UInt16) :
    (Device.input d port).2.outputs = d.outputs := by
  obtain ⟨_ | ⟨value, rest⟩, outputs⟩ := d <;> rfl

theorem Machine.touchesOnly_perform {m : Machine QueueDevice} (hr : m.halted = false)
    (i : Instruction UInt16) : m.TouchesOnly i ((m.ready i.opcode).perform i) := by
  have hdevice := (m.ready i.opcode).device_perform i
  have hcontrol := (m.ready i.opcode).control_perform i
  refine ⟨?_, ?_, ?_, ?_, ?_, ?_, ?_, ?_⟩
  · intro x hx
    exact read_perform (m := m.ready i.opcode) hx
  · intro r h
    exact get_perform (m := m.ready i.opcode) h
  · rw [hdevice]
    cases i.opcode with
    | input | inputImm => exact QueueDevice.inputs_input _ _
    | _ => rfl
  · rw [hdevice]
    cases i.opcode with
    | input | inputImm => exact QueueDevice.outputs_input _ _
    | _ => rfl
  · refine (congrArg Control.interruptsEnabled hcontrol).trans ?_
    cases i.opcode <;> rfl
  · have hready : ∀ op, (m.ready op).control.halted = false := fun _ => hr
    have hhalted : ((m.ready i.opcode).perform i).halted = _ := congrArg Control.halted hcontrol
    rw [hhalted]
    cases ho : i.opcode with
    | halt => simp
    | _ => simp [hready]
  · refine (congrArg Control.pendingInterrupt hcontrol).trans ?_
    cases i.opcode <;> rfl
  · intro h
    exact pc_perform (m := m.ready i.opcode) h

/-- A step touches only what its instruction names: the bytes that it stores or puts on the
stack, its destination registers, one value of the queue or one note of an output, and one
flag. It ends behind the words of the instruction, unless that is a jump, a call or a return,
with its condition if it has one. -/
theorem a_step_touches_only_what_its_instruction_names {m after : Machine QueueDevice} {c : Nat}
    (hr : m.halted = false) (hs : m.step = (.ok c, after)) :
    ∃ i, m.upcoming = .ok i ∧ m.TouchesOnly i after := by
  cases hi : m.upcoming with
  | error e =>
    rw [Machine.step_of_invalid hr hi] at hs
    cases hs
  | ok i =>
    by_cases hd : i.DividesByZero (m.get i.second)
    · rw [Machine.step_of_dividesByZero hr hi hd] at hs
      cases hs
    · rw [Machine.step_of_performed hr hi hd] at hs
      cases hs
      exact ⟨i, rfl, Machine.touchesOnly_perform hr i⟩

/-- A machine that is about to execute an interrupt which pushes all registers, with room for
two words below the stack pointer before the end of memory is reached. -/
def savingByInterrupt : Machine QueueDevice :=
  { (Machine.boot .zeroed (.ofInputs [7])).set .sp 4 with
    pc := 0x10, interruptsEnabled := true, pendingInterrupt := some 0xDEA3 }

/-- The byte above the stack, the queue and the program counter stay as they are. -/
theorem an_interrupt_saves_the_registers_below_the_stack_pointer :
    savingByInterrupt.halted = false ∧ ∃ after, savingByInterrupt.step = (.ok 1, after) ∧
      after.memory.read 4 = 0 ∧ after.get .o = 0 ∧ after.device.inputs = [7] ∧
      after.pc = 0x10 := by
  have hr : savingByInterrupt.halted = false := rfl
  have hi : savingByInterrupt.upcoming = .ok ⟨.pushAll, none, none, none⟩ := by
    have hdecode : Instruction.decode 0xDEA3 = .ok ⟨.pushAll, none, none, none⟩ := rfl
    unfold Machine.upcoming
    change (Instruction.decode 0xDEA3).map _ = _
    rw [hdecode]
    rfl
  have hs := Machine.step_of_performed hr hi (by simp [Instruction.DividesByZero])
  obtain ⟨i, hi', htouches⟩ := a_step_touches_only_what_its_instruction_names hr hs
  rw [hi] at hi'
  cases hi'
  have habove : ¬ Memory.Below 4 15 (4 + UInt16.ofNat 0) := Memory.not_below_add (by omega)
  refine ⟨hr, _, hs, ?_, ?_, htouches.inputs_eq, htouches.pc_eq rfl⟩
  · rw [htouches.read_eq 4 habove]
    exact Memory.read_zeroed 4
  · exact htouches.get_eq .o (by decide)

end WordMachine
