import ModuleLoader.Machine
import ModuleLoader.Path.Policy

/-!
# Paths in use

* `stringOf` : an argument that has to be a string;
* `expandPath` : a path expanded, or none after the reason was noted down;
* `programDirectory` : the directory of the running program;
* `fileExists` : whether a path leads to a regular file.
-/

namespace ModuleLoader

def stringOf : Value → Action String
  | .string text => pure text
  | value => fail (.argument value .string)

def expansionNotes (path : String) : Path.Failure → List Note
  | .noHome (.unknownAccount login) => [.unknownAccount login, .noHome path]
  | .noHome _ => [.noHome path]
  | .noWorkingDirectory => [.noWorkingDirectory path]
  | .fault _ => []

def expandPath (path : String) : Action (Option String) := do
  match (← get).system.expand path with
  | .ok expanded => pure (some expanded)
  | .error (.fault fault) => fail (.badPath fault)
  | .error failure =>
    (expansionNotes path failure).forM note
    pure none

/-- The directory of the running program, or the working directory when its path is not known. -/
def programDirectory : Action String := do
  let program := (← get).system.arguments.head?.getD ""
  let expanded ← if program.isEmpty then pure none else expandPath program
  match expanded, (← get).system.workingDirectory with
  | some path, _ => pure (Path.Policy.standard.dirName path)
  | none, some directory => pure directory
  | none, none => fail .noWorkingDirectory

def fileExists (path : String) : Action Bool := do
  record (.consulted .probe path)
  return (← get).system.isFile path

end ModuleLoader
