-- Folders: the files that a tool finds and leaves behind. A path is walked
-- step by step from the folder where the tool runs. That folder has files
-- only, so a path leads to one of them, to a folder, or out of the folder.
import WordMachine.Tool.Path
import WordMachine.Word

namespace WordMachine

/-! ## Errors -/

/-- Why a file cannot be read or written. -/
inductive FileError
  | notFound
  /-- The path goes on behind a file. -/
  | notFolder
  /-- The path leads to a folder. -/
  | isFolder
  | nameTooLong
  /-- The bytes are no text. -/
  | notText
  | other (message : String)
  deriving DecidableEq, Repr

/-- The text of a file error. -/
def FileError.message : FileError → String
  | notFound => "No such file or directory (os error 2)"
  | notFolder => "Not a directory (os error 20)"
  | isFolder => "Is a directory (os error 21)"
  | nameTooLong => "File name too long (os error 36)"
  | notText => "stream did not contain valid UTF-8"
  | other message => message

/-- The text that a row of bytes encodes. -/
def textOfBytes (bytes : Bytes) : Except FileError String :=
  match String.fromUTF8? ⟨bytes.toArray⟩ with
  | some s => .ok s
  | none => .error .notText

/-- The bytes that encode a text. -/
def bytesOfText (s : String) : Bytes := s.toUTF8.toList

/-- The most bytes of a file name. -/
def maxNameSize : Nat := 255

/-- The most bytes of a path. -/
def maxPathSize : Nat := 4095

/-! ## Walks -/

/-- What a file is opened for. -/
inductive Access
  | reading | writing
  deriving DecidableEq, Repr

/-- Where a path leads. -/
inductive Place
  /-- To the file of the folder with that name, which may be missing. -/
  | inside (name : String)
  /-- To a file outside the folder. -/
  | outside
  deriving DecidableEq, Repr

/-- The files of a folder by their names. -/
abbrev Folder := List (String × Bytes)

namespace Folder

/-- Walks the steps of a path. `here` says that the walk has not left the
folder. A slash behind the last name asks for a folder, which is refused
before the name is looked up if the file is opened for writing. -/
def walk (folder : Folder) (access : Access) (here : Bool) : List String → Except FileError Place
  | [] => .error .isFolder
  | step :: rest =>
    if isIdleStep step then folder.walk access here rest
    else if step = stepUp then folder.walk access false rest
    else if access = .writing ∧ rest ≠ [] ∧ rest.all (· == "") then .error .isFolder
    else if maxNameSize < step.utf8ByteSize then .error .nameTooLong
    else if rest = [] then .ok (if here then .inside step else .outside)
    else if here ∧ (folder.lookup step).isSome then .error .notFolder
    else .error .notFound

/-- Where a path leads. -/
def locate (folder : Folder) (access : Access) (path : String) : Except FileError Place :=
  if path = "" then .error .notFound
  else if maxPathSize < path.utf8ByteSize then .error .nameTooLong
  else folder.walk access (isRelative path) (pathSteps path)

/-! ## Reading and writing -/

/-- The file that is always empty: what is written to it is dropped. -/
def nullPath : String := "/dev/null"

/-- The folder with a file that has the given name and bytes. -/
def put (folder : Folder) (name : String) (bytes : Bytes) : Folder :=
  (name, bytes) :: folder.filter (·.1 != name)

/-- The bytes of a file. There are no files outside the folder to be read,
the null file apart. -/
def read (folder : Folder) (path : String) : Except FileError Bytes :=
  if path = nullPath then .ok []
  else
    match folder.locate .reading path with
    | .ok (.inside name) =>
      match folder.lookup name with
      | some bytes => .ok bytes
      | none => .error .notFound
    | .ok .outside => .error .notFound
    | .error e => .error e

/-- The folder after bytes are written to a file. A file outside leaves no
trace in it. -/
def write (folder : Folder) (path : String) (bytes : Bytes) : Except FileError Folder :=
  if path = nullPath then .ok folder
  else
    match folder.locate .writing path with
    | .ok (.inside name) => .ok (folder.put name bytes)
    | .ok .outside => .ok folder
    | .error e => .error e

end Folder

end WordMachine
