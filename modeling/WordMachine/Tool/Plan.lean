-- Plans: what a tool prints and writes, once it has read its input.
import WordMachine.Tool.Folder

namespace WordMachine

/-- What a tool does: it prints, then it writes files, then it ends with a
message and an exit code. A file that cannot be written ends it early. -/
structure Plan where
  stdout : Bytes
  writes : List (String × Bytes)
  stderr : String
  code : Nat
  deriving DecidableEq, Repr

namespace Plan

/-- Ends with an error after some output. -/
def failed (message : String) (stdout : Bytes) (writes : List (String × Bytes)) : Plan :=
  ⟨stdout, writes, message ++ "\n", 1⟩

/-- Ends well. -/
def done (stdout : Bytes) (writes : List (String × Bytes)) : Plan := ⟨stdout, writes, "", 0⟩

/-- The message for a file that cannot be used. -/
def fileMessage (path : String) (e : FileError) : String := path ++ ": " ++ e.message

/-- The plan for the case that the file at `path` cannot be written. -/
def unwritable (p : Plan) (path : String) (e : FileError) : Plan :=
  failed (fileMessage path e) p.stdout []

/-- Writes the files in a folder. The result is the plan that is left and the
folder afterwards. -/
def writeAll (p : Plan) (folder : Folder) : List (String × Bytes) → Plan × Folder
  | [] => ({ p with writes := [] }, folder)
  | (path, bytes) :: rest =>
    match folder.write path bytes with
    | .ok folder => p.writeAll folder rest
    | .error e => (p.unwritable path e, folder)

/-- Carries out a plan in a folder. -/
def perform (p : Plan) (folder : Folder) : Plan × Folder := p.writeAll folder p.writes

end Plan

end WordMachine
