import ModuleLoader.Load.Script

/-!
# Loading native libraries

A library is opened and its entry point is called; a library without the entry point is closed
again.

* `openingDiagnostic` : what is said about a file that cannot be opened;
* `openLibrary` : a library opened under the next handle, and its image;
* `callEntryPoint` : the effect of the entry point;
* `installLibrary`, `loadLibrary` : a library opened and installed, for a module or by its path;
* `releaseFunction?` : the function of the platform that closes a library.
-/

namespace ModuleLoader

def openingDiagnostic (path : String) : Obstacle → String
  | .isADirectory => path ++ ": cannot read file data: " ++ Obstacle.isADirectory.message
  | obstacle => path ++ ": cannot open shared object file: " ++ obstacle.message

def refuseLibrary {α : Type} (path diagnostic : String) : Action α := do
  note (.openFailure diagnostic)
  fail (.library path (.openFailed diagnostic))

/-- The library at a path under the next handle, the name of its entry point and the script that
calling it runs. -/
def openLibrary (path : String) : Action (Library × Option String × Option String) := do
  record (.consulted .load path)
  let m ← get
  match m.system.openImage path with
  | .error .nulInPath => fail .nulInPath
  | .error obstacle => refuseLibrary path (openingDiagnostic path obstacle)
  | .ok (.refuses diagnostic) => refuseLibrary path diagnostic
  | .ok (.opens entryPoint install) => do
    let handle := m.openedCount + 1
    record (.library .opened path handle)
    return (⟨path, handle⟩, entryPoint, install)

/-- The name under which the script of an entry point runs. -/
def installFile : String := "<install>"

def callEntryPoint (exec : Execute) (library : Library) (install : Option String) :
    Action Unit := do
  record (.library .installed library.path library.handle)
  match install with
  | some source => discard (runSource exec installFile source.toList)
  | none => pure ()

/-- The library at a path, opened and installed. -/
def installLibrary (exec : Execute) (path : String) : Action Library := do
  let (library, entryPoint, install) ← openLibrary path
  if entryPoint = some (← get).configuration.entryPoint then
    callEntryPoint exec library install
    note (.installed path)
    return library
  else
    record (.library .closed path library.handle)
    fail (.library path .noEntryPoint)

/-- The library at a path, for who asks for it by that path. -/
def loadLibrary (exec : Execute) (path : String) : Action Library := do
  let library ← installLibrary exec path
  record (.handed library)
  return library

/-- The function that closes a library, out of those that the platform has. -/
def releaseFunction? (available : List String) : Option String :=
  ["dlclose", "FreeLibrary"].find? (fun name => available.contains name)

end ModuleLoader
