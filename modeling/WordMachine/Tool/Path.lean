-- Paths: the text that names a file, its steps from folder to folder, and
-- the extension of the file's name.

namespace WordMachine

/-! ## Steps -/

/-- The steps of a path: what stands between its slashes. -/
def pathSteps (path : String) : List String := path.splitOn "/"

/-- A path that starts in the folder where a tool runs, and not in the root. -/
def isRelative (path : String) : Bool := path.toList.head? != some '/'

/-- A step that stays where it is. -/
def isIdleStep (step : String) : Bool := step == "" || step == "."

/-- The step to the folder above. -/
def stepUp : String := ".."

/-! ## File names -/

/-- The folder of a path, with its last slash, and the name of the file. -/
def splitFolder (path : String) : String × String :=
  let reversed := path.toList.reverse
  (String.ofList (reversed.dropWhile (· != '/')).reverse,
   String.ofList (reversed.takeWhile (· != '/')).reverse)

/-- The stem of a file name and its extension, which is what follows the last
period. A period at the start of a name starts no extension. -/
def splitExtension (name : String) : String × Option String :=
  let reversed := name.toList.reverse
  match reversed.dropWhile (· != '.') with
  | [] | [_] => (name, none)
  | _ :: stem =>
    (String.ofList stem.reverse, some (String.ofList (reversed.takeWhile (· != '.')).reverse))

/-- The extension of a path. -/
def extension? (path : String) : Option String := (splitExtension (splitFolder path).2).2

/-- The path with another extension. The old one is cut off behind its
period. What is left may be the step to the folder above, which takes no
extension. -/
def withExtension (path ext : String) : String :=
  let (folder, name) := splitFolder path
  match splitExtension name with
  | (".", some _) => folder ++ stepUp
  | (stem, _) => folder ++ stem ++ "." ++ ext

end WordMachine
