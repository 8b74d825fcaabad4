import ModuleLoader.FileSystem
import ModuleLoader.Path.Expansion
import ModuleLoader.Script.Literal

/-!
# The system around the loader

All that the loader learns from outside. Two things are left to the system without being modelled:
how symbolic links change the place of a path, and which characters have names. Left out are the
encoding in which a terminal takes what is printed, and that files may change while a script runs.

* `System` : the files, the working directory, the environment, the command line, the users, how
  paths are resolved and which characters have names;
* `System.bare` : a system without anything in it;
* `System.enter`, `write`, `delete` : changes made from outside;
* `System.expand` : a path expanded under the standard policy;
* `System.isFile`, `readText`, `openImage` : the uses of a path.
-/

namespace ModuleLoader

/-- What the loader reads of the system. The working directory is kept as it was given; without
one it was deleted. -/
structure System where
  files : FileSystem
  workingDirectory : Option String
  environment : List (String × String)
  arguments : List String
  users : Path.Users
  resolution : Resolution := .byText
  names : Script.CharacterNames := fun _ => none

namespace System

/-- A system without files, environment, command line and accounts. -/
def bare (workingDirectory : Option String) : System where
  files := FileSystem.empty
  workingDirectory := workingDirectory
  environment := []
  arguments := []
  users := ⟨0, none⟩
  resolution := .refusingNul

def place? (system : System) : Option Place :=
  system.workingDirectory.map (fun path => Place.resolve [] path.toList)

/-- The place that a path names by its text, seen from the working directory or else from the
root. -/
def placeOf (system : System) (path : String) : Place :=
  (system.place?.getD []).resolve path.toList

/-- The system with something put where a path points to. -/
def write (system : System) (path : String) (node : Node) : System :=
  { system with files := system.files.insert (system.placeOf path) node }

def delete (system : System) (path : String) : System :=
  { system with files := system.files.erase (system.placeOf path) }

/-- The system with another working directory, which is made if nothing stands there. -/
def enter (system : System) (path : Option String) : System :=
  let moved := { system with workingDirectory := path }
  match moved.place? with
  | none => moved
  | some place => { moved with files := moved.files.ensureDirectory place }

def expand (system : System) (path : String) : Except Path.Failure String :=
  Path.expand system.users system.workingDirectory .standard path

def isFile (system : System) (path : String) : Bool :=
  system.files.isFile system.place? path.toList

def readText (system : System) (path : String) : Except Obstacle (List Char) :=
  system.files.readText system.place? path.toList

def openImage (system : System) (path : String) : Except Obstacle Image :=
  system.files.openImage system.place? path.toList

end System

end ModuleLoader
