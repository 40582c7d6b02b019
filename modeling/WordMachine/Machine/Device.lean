-- Devices: what stands behind the ports of the machine.
import WordMachine.Word

namespace WordMachine

/-- A device, whose state changes with every input and output. -/
class Device (δ : Type) where
  /-- The value that a port gives. -/
  input : δ → UInt16 → UInt16 × δ
  /-- The state after a value was sent to a port. -/
  output : δ → UInt16 → UInt16 → δ

/-! ## No device -/

/-- Ports without a device behind them. -/
inductive NoDevice
  | mk
  deriving DecidableEq, Repr

instance : Device NoDevice where
  input d _ := (0, d)
  output d _ _ := d

/-! ## A queue -/

/-- A device that gives the values of a queue, on every port, and notes the
values it is sent. -/
structure QueueDevice where
  inputs : List UInt16
  outputs : Array (UInt16 × UInt16)
  deriving DecidableEq, Repr

namespace QueueDevice

/-- A device with the given values in its queue. -/
def ofInputs (inputs : List UInt16) : QueueDevice := ⟨inputs, #[]⟩

/-- The device with one more value at the end of its queue. -/
def pushInput (d : QueueDevice) (value : UInt16) : QueueDevice :=
  { d with inputs := d.inputs ++ [value] }

end QueueDevice

instance : Device QueueDevice where
  input d _ :=
    match d.inputs with
    | [] => (0, d)
    | value :: rest => (value, { d with inputs := rest })
  output d port value := { d with outputs := d.outputs.push (port, value) }

/-! ## A console -/

/-- A console: the bytes that are still to be typed, and those that have been
printed, the last one first. -/
structure Console where
  typed : Bytes
  printed : Bytes
  deriving DecidableEq, Repr

namespace Console

/-- The port of the console. -/
def port : UInt16 := 0x0A

/-- A console on which the given bytes will be typed. -/
def ofInput (bytes : Bytes) : Console := ⟨bytes, []⟩

/-- The bytes that have been printed. -/
def output (c : Console) : Bytes := c.printed.reverse

end Console

instance : Device Console where
  input c port :=
    if port = Console.port then
      match c.typed with
      | [] => (0xFFFF, c)
      | b :: bs => (b.toUInt16, { c with typed := bs })
    else (0, c)
  output c port value :=
    if port = Console.port then { c with printed := value.toUInt8 :: c.printed } else c

end WordMachine
