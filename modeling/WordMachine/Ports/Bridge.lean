-- The port bridge: several clients share the ports of one machine. Each has
-- a range of its own; ports that belong to no client give zero.
import WordMachine.AddressMap
import WordMachine.Machine.Device
import WordMachine.Text.Numeral

namespace WordMachine

/-- A device that takes a range of ports. Its ports are numbered from zero. -/
class PortClient (γ : Type) where
  /-- The number of ports that the client needs. -/
  requiredPorts : γ → UInt16
  /-- The port at which the range should start. -/
  preferredBase : γ → UInt16
  /-- The range may start at another port as well. -/
  canRelocate : γ → Bool
  /-- The client after it was told that its range starts at another port. -/
  relocated : γ → UInt16 → γ
  /-- The value at a port. -/
  read : γ → UInt16 → UInt16 × γ
  /-- The client after a value was written to a port. -/
  write : γ → UInt16 → UInt16 → γ

/-- Why the bridge refuses a request. -/
inductive BridgeError
  | noPorts
  /-- The preferred range is taken, or reaches past the last port. -/
  | unavailable (base ports : UInt16)
  /-- No free range is large enough. -/
  | exhausted (ports : UInt16)
  | notConnected (id : Nat)
  deriving DecidableEq, Repr

/-- The text of a bridge error. -/
def BridgeError.message : BridgeError → String
  | noPorts => "client does not require any ports"
  | unavailable base ports =>
    s!"{ports} ports starting at 0x" ++ Text.hexWord base ++ " are not available"
  | exhausted ports => s!"no free range of {ports} ports"
  | notConnected id => s!"client {id} is not connected"

/-- A client and the range of ports that it has. -/
structure Connection (γ : Type) where
  base : UInt16
  ports : UInt16
  client : γ
  deriving DecidableEq, Repr

/-- The first port behind the range, which may be one behind the last port. -/
def Connection.finish {γ : Type} (c : Connection γ) : Nat := c.base.toNat + c.ports.toNat

/-- The clients that are connected. -/
structure PortBridge (γ : Type) where
  /-- The connections by the numbers of the clients. -/
  connections : AddressMap (Connection γ)
  /-- The numbers of the clients by the starts of their ranges. -/
  bases : AddressMap Nat
  nextId : Nat

namespace PortBridge

variable {γ : Type}

/-- The number of ports. -/
def portCount : Nat := 0x10000

/-- The bridge without clients. -/
def empty : PortBridge γ := ⟨.empty, .empty, 0⟩

/-- The number of connections. -/
def size (b : PortBridge γ) : Nat := b.connections.size

/-- The start of the range of a client. -/
def base? (b : PortBridge γ) (id : Nat) : Option UInt16 := (b.connections.get? id).map (·.base)

/-! ## Free ranges -/

/-- A range lies within the ports and meets no range of a client. -/
def isFree (b : PortBridge γ) (base ports : Nat) : Bool :=
  base + ports ≤ portCount &&
    b.connections.values.all fun c => c.finish ≤ base || base + ports ≤ c.base.toNat

/-- The first start of a free range, from `candidate` on, past the given
connections in ascending order. -/
def firstGap (ports candidate : Nat) : List (Connection γ) → Nat
  | [] => candidate
  | c :: cs =>
    if candidate + ports ≤ c.base.toNat then candidate
    else firstGap ports (max candidate c.finish) cs

/-- The connections in ascending order of their ranges. -/
def byBase (b : PortBridge γ) : List (Connection γ) := b.bases.values.filterMap b.connections.get?

/-- The start of the lowest free range that is large enough. -/
def findFree? (b : PortBridge γ) (ports : Nat) : Option UInt16 :=
  let candidate := firstGap ports 0 b.byBase
  if candidate + ports ≤ portCount then some (UInt16.ofNat candidate) else none

/-! ## Connecting -/

/-- A client with a range, as the next number. -/
def attach (b : PortBridge γ) (c : Connection γ) : PortBridge γ :=
  { connections := b.connections.insert b.nextId c
    bases := b.bases.insert c.base.toNat b.nextId
    nextId := b.nextId + 1 }

/-- Gives a client a range of ports: the preferred one if it is free, else the
lowest free one if the client can relocate. The result is the number of the
client and the start of its range. -/
def connect [PortClient γ] (b : PortBridge γ) (client : γ) :
    Except BridgeError ((Nat × UInt16) × PortBridge γ) :=
  let ports := PortClient.requiredPorts client
  let preferred := PortClient.preferredBase client
  if ports = 0 then .error .noPorts
  else if b.isFree preferred.toNat ports.toNat then
    .ok ((b.nextId, preferred), b.attach ⟨preferred, ports, client⟩)
  else if PortClient.canRelocate client then
    match b.findFree? ports.toNat with
    | some base =>
      .ok ((b.nextId, base), b.attach ⟨base, ports, PortClient.relocated client base⟩)
    | none => .error (.exhausted ports)
  else .error (.unavailable preferred ports)

/-- Frees the range of a client and gives the client back. -/
def disconnect (b : PortBridge γ) (id : Nat) : Except BridgeError (γ × PortBridge γ) :=
  match b.connections.get? id with
  | none => .error (.notConnected id)
  | some c =>
    .ok (c.client, { b with
      connections := b.connections.erase id
      bases := b.bases.erase c.base.toNat })

/-! ## Routing -/

/-- The client whose range holds a port, with its number. -/
def route? (b : PortBridge γ) (port : UInt16) : Option (Nat × Connection γ) := do
  let (_, id) ← b.bases.floor? port.toNat
  let c ← b.connections.get? id
  if port.toNat < c.finish then some (id, c) else none

/-- The bridge with another state of a client. -/
def setClient (b : PortBridge γ) (id : Nat) (c : Connection γ) (client : γ) : PortBridge γ :=
  { b with connections := b.connections.insert id { c with client } }

instance [PortClient γ] : Device (PortBridge γ) where
  input b port :=
    match b.route? port with
    | some (id, c) =>
      let (value, client) := PortClient.read c.client (port - c.base)
      (value, b.setClient id c client)
    | none => (0, b)
  output b port value :=
    match b.route? port with
    | some (id, c) => b.setClient id c (PortClient.write c.client (port - c.base) value)
    | none => b

/-! ## Debugging -/

/-- A connection, as the debugger shows it. -/
def connectionText (entry : Nat × Connection γ) : String :=
  s!"{entry.1}: \"" ++ Text.hexWord entry.2.base ++ ".."
    ++ Text.hex 5 entry.2.finish ++ "\""

/-- The connections, as the debugger shows them. -/
def summary (b : PortBridge γ) : String :=
  "\x7b" ++ ", ".intercalate (b.connections.toList.map connectionText) ++ "\x7d"

end PortBridge

end WordMachine
