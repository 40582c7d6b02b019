-- Executing one instruction.
import WordMachine.Instruction.Basic
import WordMachine.Machine.Arithmetic
import WordMachine.Machine.Basic

namespace WordMachine

/-- Why the machine stops before it is told to. Both causes come with the
address of the instruction. -/
inductive Fault
  | invalidOpcode (word address : UInt16)
  | divideByZero (address : UInt16)
  deriving DecidableEq, Repr

/-- The text of a fault. -/
def Fault.message : Fault → String
  | invalidOpcode word address =>
    "invalid opcode 0x" ++ Text.hexWord word ++ " at address 0x" ++ Text.hexWord address
  | divideByZero address => "division by zero at address 0x" ++ Text.hexWord address

/-- The registers that are pushed together: all but the stack pointer. -/
def Register.saved : List Register := Register.all.dropLast

namespace Instruction

/-- The first register of an instruction; register `A` if it is missing. -/
def first (i : Instruction UInt16) : Register := i.a.getD .a

/-- The second register of an instruction; register `A` if it is missing. -/
def second (i : Instruction UInt16) : Register := i.b.getD .a

/-- The immediate of an instruction; zero if it is missing. -/
def value (i : Instruction UInt16) : UInt16 := i.immediate.getD 0

end Instruction

namespace Machine

variable {δ : Type}

/-- Goes back to where the last call came from. -/
def ret (m : Machine δ) : Machine δ :=
  let (target, m) := m.pop
  m.jump target

/-- Goes to `target` and leaves the way back on the stack. -/
def call (m : Machine δ) (target : UInt16) : Machine δ := (m.push m.pc).jump target

/-- Pushes every register but the stack pointer. -/
def pushAll (m : Machine δ) : Machine δ := Register.saved.foldl (fun m r => m.push (m.get r)) m

/-- Pops what `pushAll` pushed. -/
def popAll (m : Machine δ) : Machine δ :=
  Register.saved.reverse.foldl (fun m r =>
    let (value, m) := m.pop
    m.set r value) m

/-- The instruction takes a remainder, and its divisor is zero. -/
def dividesByZero (m : Machine δ) (i : Instruction UInt16) : Bool :=
  match i.opcode with
  | .arith .mod => m.get i.second == 0
  | .arithImm .mod => i.value == 0
  | _ => false

variable [Device δ]

/-- Puts the value that a port gives into a register. -/
def input (m : Machine δ) (r : Register) (port : UInt16) : Machine δ :=
  let (value, device) := Device.input m.device port
  { m with device }.set r value

/-- Sends a value to a port. -/
def output (m : Machine δ) (port value : UInt16) : Machine δ :=
  { m with device := Device.output m.device port value }

/-- What an instruction does to the machine. -/
def perform (m : Machine δ) (i : Instruction UInt16) : Machine δ :=
  let r := i.first
  let s := i.second
  match i.opcode with
  | .arith op => m.set s (op.apply (m.get r) (m.get s))
  | .arithImm op => m.set r (op.apply (m.get r) i.value)
  | .inc => m.set r (m.get r + 1)
  | .dec => m.set r (m.get r - 1)
  | .not => m.set r (~~~ m.get r)
  | .neg => m.set r (- m.get r)
  | .jumpIf c => if c.holds (m.get r) (m.get s) then m.jump i.value else m
  | .retIf c => if c.holds (m.get r) (m.get s) then m.ret else m
  | .copy => m.set s (m.get r)
  | .load => m.set s (m.memory.readWord (m.get r))
  | .store => { m with memory := m.memory.writeWord (m.get s) (m.get r) }
  | .swap =>
    let x := m.get r
    (m.set r (m.get s)).set s x
  | .swapMemory =>
    let address := m.get r
    let x := m.memory.readWord address
    let y := m.get s
    { m with memory := m.memory.writeWord address y }.set s x
  | .high => m.set s (m.get r >>> 8)
  | .low => m.set s (m.get r &&& 0xFF)
  | .input => m.input r (m.get s)
  | .copyImm => m.set r i.value
  | .inputImm => m.input r i.value
  | .outputImm => m.output i.value (m.get r)
  | .shiftLeft => m.set r (Arith.shl.apply (m.get r) i.value)
  | .shiftRight => m.set r (shiftRightSigned (m.get r) i.value)
  | .jumpReg => m.jump (m.get r)
  | .popAll => m.popAll
  | .pushAll => m.pushAll
  | .jump => m.jump i.value
  | .call => m.call i.value
  | .ret => m.ret
  | .halt => { m with halted := true }
  | .enableInterrupts => { m with interruptsEnabled := true }
  | .disableInterrupts => { m with interruptsEnabled := false }
  | .callReg => m.call (m.get r)
  | .push => m.push (m.get r)
  | .pop =>
    let (x, m) := m.pop
    m.set r x
  | .output => m.output (m.get r) (m.get s)
  | .jumpIfZero t => if t.holds (m.get r) then m.jump i.value else m
  | .retIfZero t => if t.holds (m.get r) then m.ret else m
  | .nop => m

/-- Executes an instruction that stands at `address`. The only fault is a
remainder by zero, and then the machine stays as it is. -/
def execute (m : Machine δ) (i : Instruction UInt16) (address : UInt16) :
    Except Fault Unit × Machine δ :=
  if m.dividesByZero i then (.error (.divideByZero address), m) else (.ok (), m.perform i)

end Machine

end WordMachine
