-- Journals: the log records of builds, of the machine and of the bridge.
import WordMachine.Assembler.Build
import WordMachine.Machine.Run
import WordMachine.Ports.Bridge

namespace WordMachine

/-! ## Builds -/

namespace LogRecord

/-- The record of a text cut into fragments. -/
def ofFragments (fs : List Fragment) : LogRecord :=
  ⟨.debug, "tokenize", "tokenized source",
    [("tokens", toString fs.length), ("lines", toString (Fragment.lineCount fs))]⟩

/-- The record of fragments that were given their meaning. -/
def ofTokens (fs : List Fragment) (ts : List Token) : LogRecord :=
  ⟨.debug, "lex", "lexed tokens",
    [("input", toString fs.length), ("output", toString ts.length)]⟩

/-- The record of a parsed program. -/
def ofProgram (p : Program) : LogRecord :=
  ⟨.debug, "parse", "parsed program",
    [("nodes", toString p.nodes.length), ("labels", toString p.labels.size)]⟩

/-- The record of a compiled program. -/
def ofImage (image : Image) : LogRecord :=
  ⟨.debug, "compile", "compiled program",
    [("bytes", toString image.bytes.length), ("labels", toString image.defines.size),
     ("relocations", toString image.relocations.size)]⟩

/-- The record of a finished build. -/
def ofBuild (p : Program) (image : Image) : LogRecord :=
  ⟨.debug, "build", "build finished",
    [("name", p.name.getD "<unnamed>"), ("bytes", toString image.bytes.length),
     ("labels", toString image.defines.size)]⟩

/-- The record of a failed build. -/
def ofBuildError (e : BuildError) : LogRecord :=
  match e.diagnostic with
  | some diagnostic => ⟨.error, "build", "build failed\n" ++ diagnostic, []⟩
  | none => ⟨.error, "build", "build failed", [("error", e.problem.message)]⟩

end LogRecord

/-- The records of a build: one for each stage, up to the one that fails. -/
def Build.journal (source : String) : List LogRecord :=
  match Fragment.split source with
  | .error e => [.ofBuildError ⟨.fragment e, none⟩]
  | .ok fs =>
    let failed (p : Problem) : LogRecord := .ofBuildError (.inFragments fs p)
    .ofFragments fs ::
      match Token.ofFragments fs with
      | .error e => [failed (.token e)]
      | .ok ts =>
        .ofTokens fs ts ::
          match Program.parse ts with
          | .error e => [failed (.program e)]
          | .ok p =>
            .ofProgram p ::
              match p.compile with
              | .error e => [failed (.compile e)]
              | .ok image => [.ofImage image, .ofBuild p image]

/-! ## The machine -/

/-- The record of an event. -/
def Machine.Event.record : Machine.Event → LogRecord
  | dispatching vector =>
    ⟨.debug, "emulator", "dispatching interrupt", [("vector", Text.hexWord vector)]⟩
  | faulted e => ⟨.error, "emulator", "execution error", [("error", e.message)]⟩
  | halted address => ⟨.debug, "emulator", "halted", [("address", Text.hexWord address)]⟩

/-! ## The bridge -/

namespace PortBridge

variable {γ : Type}

/-- The record of a client that got a range. -/
def connectRecord (id : Nat) (base ports : UInt16) : LogRecord :=
  ⟨.debug, "io", "client connected",
    [("client", toString id), ("base", toString base), ("ports", toString ports)]⟩

/-- The record of a client that gave up its range. -/
def disconnectRecord (id : Nat) (base : UInt16) : LogRecord :=
  ⟨.debug, "io", "client disconnected", [("client", toString id), ("base", toString base)]⟩

/-- The records of an attempt to connect a client. A refusal leaves none. -/
def connectJournal [PortClient γ] (b : PortBridge γ) (client : γ) : List LogRecord :=
  match b.connect client with
  | .ok ((id, base), _) => [connectRecord id base (PortClient.requiredPorts client)]
  | .error _ => []

/-- The records of an attempt to disconnect a client. A refusal leaves none. -/
def disconnectJournal (b : PortBridge γ) (id : Nat) : List LogRecord :=
  ((b.base? id).map (disconnectRecord id)).toList

end PortBridge

end WordMachine
