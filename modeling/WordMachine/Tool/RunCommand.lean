-- The run command: executes a program, which it assembles first if need be.
import WordMachine.Assembler.Build
import WordMachine.Machine.Run
import WordMachine.Tool.Plan

namespace WordMachine

/-- The options of the run command. -/
structure RunCommand where
  file : String
  maxSteps : Option String
  deriving DecidableEq, Repr

namespace RunCommand

/-- The extension of source files. -/
def sourceExtension : String := "a2s"

/-- The most steps of a run without a limit, which no run reaches. -/
def unlimited : Nat := 0x4000000000000000

/-- The number of steps that a text gives, if it fits in 64 bits. -/
def stepCount? (s : String) : Option Nat := (Text.readNumeral? 10 s.toList).filter (· < UInt64.size)

/-- The most steps of the run. -/
def limit (c : RunCommand) : Except String Nat :=
  match c.maxSteps with
  | none => .ok unlimited
  | some s =>
    match stepCount? s with
    | some n => .ok n
    | none => .error s!"invalid step count '{s}'"

/-- The bytes of the program, given what reading the file brought. -/
def program (c : RunCommand) (contents : Except FileError Bytes) : Except String Bytes :=
  if extension? c.file = some sourceExtension then
    match contents.bind textOfBytes with
    | .error e => .error s!"IO error: {e.message}"
    | .ok source =>
      match Build.ofSource false source with
      | .error e => .error e.message
      | .ok b => .ok b.image.bytes
  else
    contents.mapError fun e => s!"IO error: {e.message}"

/-- Runs a program on a console. -/
def planRun (limit : Nat) (bytes typed : Bytes) : Plan :=
  match (Machine.boot (Memory.ofProgram bytes) (Console.ofInput typed)).runFor limit with
  | (.error e, m) => .failed s!"Execution error: {e.message}" m.device.output []
  | (.ok cycles, m) =>
    if m.halted then .done m.device.output []
    else ⟨m.device.output, [], s!"stopped after {cycles} cycles without halting\n", 0⟩

/-- The plan, given what reading the file brought and the bytes typed on the
console. -/
def plan (c : RunCommand) (contents : Except FileError Bytes) (typed : Bytes) : Plan :=
  match c.limit with
  | .error message => .failed message [] []
  | .ok limit =>
    match c.program contents with
    | .error message => .failed message [] []
    | .ok bytes =>
      if addressSpace < bytes.length then
        .failed (c.file ++ " is larger than the 64 KiB memory") [] []
      else planRun limit bytes typed

/-- Runs the command in a folder. -/
def perform (c : RunCommand) (folder : Folder) (typed : Bytes) : Plan × Folder :=
  (c.plan (folder.read c.file) typed).perform folder

end RunCommand

end WordMachine
