-- The build command: assembles a file.
import WordMachine.Assembler.Build
import WordMachine.Image.Dump
import WordMachine.Tool.Plan

namespace WordMachine

/-- What the build command can show of a build. -/
inductive DumpKind
  | tokens | ast | bytes | symbols
  deriving DecidableEq, Repr

/-- What to show for a word on the command line. -/
def DumpKind.ofWord? (s : String) : Option DumpKind :=
  [("tokens", tokens), ("ast", ast), ("bytes", bytes), ("symbols", symbols)].lookup s

/-- The options of the build command. -/
structure BuildCommand where
  source : String
  /-- Where to write the bytes of the image. -/
  output : Option String
  /-- Where to write the symbol table. -/
  symbols : Option String
  dump : Option DumpKind
  debug : Bool
  deriving DecidableEq, Repr

/-- What is shown of a build. -/
def Build.dumpText (b : Build) : DumpKind → String
  | .tokens => String.join (b.fragments.map fun f => f.listing ++ "\n")
  | .ast => b.program.listing
  | .bytes => b.image.hexDump
  | .symbols => b.symbolTable.listing

namespace BuildCommand

/-- Where the bytes go: to the file that is named, or to one named after the
source, or nowhere if something is shown instead. -/
def outputPath? (c : BuildCommand) : Option String :=
  match c.output, c.dump with
  | some path, _ => some path
  | none, none => some (withExtension c.source "bin")
  | none, some _ => none

/-- The plan for a source that assembled. -/
def planBuild (c : BuildCommand) (b : Build) : Plan :=
  let stdout := ((c.dump.map b.dumpText).map bytesOfText).getD []
  let image := c.outputPath?.toList.map fun path => (path, b.image.bytes)
  match c.symbols with
  | none => .done stdout image
  | some path =>
    match b.symbolBytes with
    | .ok bytes => .done stdout (image ++ [(path, bytes)])
    | .error e => .failed s!"could not encode the symbol table: {e.message}" stdout image

/-- The plan, given what reading the source file brought. -/
def plan (c : BuildCommand) (contents : Except FileError Bytes) : Plan :=
  match contents.bind textOfBytes with
  | .error e => .failed (Plan.fileMessage c.source e) [] []
  | .ok source =>
    match Build.ofSource c.debug source with
    | .error e => .failed e.message [] []
    | .ok b => c.planBuild b

/-- Runs the command in a folder. -/
def perform (c : BuildCommand) (folder : Folder) : Plan × Folder :=
  (c.plan (folder.read c.source)).perform folder

end BuildCommand

end WordMachine
