-- The command line.
import WordMachine.Tool.BuildCommand
import WordMachine.Tool.RunCommand

namespace WordMachine

/-- A command with its options. -/
inductive Command
  | build (c : BuildCommand)
  | run (c : RunCommand)
  deriving DecidableEq, Repr

namespace Command

/-- How the commands are called. -/
def usage : String :=
  "usage: build FILE [--output F] [--symbols F] [--dump tokens|ast|bytes|symbols] [--debug]\n" ++
  "       run FILE [--max-steps N]\n"

/-- The options of the build command, added to those before them. -/
def addBuildOptions (c : BuildCommand) : List String → Option BuildCommand
  | [] => some c
  | "--output" :: path :: rest => addBuildOptions { c with output := some path } rest
  | "--symbols" :: path :: rest => addBuildOptions { c with symbols := some path } rest
  | "--dump" :: word :: rest =>
    match DumpKind.ofWord? word with
    | some kind => addBuildOptions { c with dump := some kind } rest
    | none => none
  | "--debug" :: rest => addBuildOptions { c with debug := true } rest
  | _ => none

/-- The command that a command line asks for. -/
def ofArguments? : List String → Option Command
  | "build" :: file :: options => (addBuildOptions ⟨file, none, none, none, false⟩ options).map build
  | ["run", file] => some (run ⟨file, none⟩)
  | ["run", file, "--max-steps", n] => some (run ⟨file, some n⟩)
  | _ => none

/-! ## The outer layer -/

/-- The cause of a failure of the file system. -/
def fileError : IO.Error → FileError
  | .noFileOrDirectory .. => .notFound
  | .inappropriateType _ 20 _ => .notFolder
  | .inappropriateType _ 21 _ => .isFolder
  | .invalidArgument _ 36 _ => .nameTooLong
  | .permissionDenied _ code details => .other (details ++ " (os error " ++ toString code ++ ")")
  | e => .other (toString e)

/-- The bytes of a file. -/
def readFile (path : String) : IO (Except FileError Bytes) := do
  try
    return .ok (← IO.FS.readBinFile path).toList
  catch e =>
    return .error (fileError e)

/-- The bytes that are left on a stream. -/
partial def readStream (s : IO.FS.Stream) (before : ByteArray) : IO ByteArray := do
  let chunk ← s.read 4096
  if chunk.isEmpty then return before else readStream s (before ++ chunk)

/-- Writes files one after the other, up to the first that cannot be written. -/
def writeFiles (p : Plan) : List (String × Bytes) → IO Plan
  | [] => return p
  | (path, bytes) :: rest => do
    try
      IO.FS.writeBinFile path ⟨bytes.toArray⟩
      writeFiles p rest
    catch e =>
      return p.unwritable path (fileError e)

/-- Carries out a plan. -/
def execute (p : Plan) : IO UInt32 := do
  let out ← IO.getStdout
  out.write ⟨p.stdout.toArray⟩
  out.flush
  let p ← writeFiles p p.writes
  IO.eprint p.stderr
  return UInt32.ofNat p.code

end Command

end WordMachine

/-- Runs the command that the command line asks for. -/
def main (args : List String) : IO UInt32 := do
  match WordMachine.Command.ofArguments? args with
  | some (.build c) =>
    let contents ← WordMachine.Command.readFile c.source
    WordMachine.Command.execute (c.plan contents)
  | some (.run c) =>
    let contents ← WordMachine.Command.readFile c.file
    let typed ← WordMachine.Command.readStream (← IO.getStdin) .empty
    WordMachine.Command.execute (c.plan contents typed.toList)
  | none =>
    IO.eprint WordMachine.Command.usage
    return 2
