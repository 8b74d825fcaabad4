import ModuleLoader.Load.Paths

/-!
# Loading scripts

* `readProgram` : the program that a source is;
* `readSource` : the text of a script file;
* `compileFile` : a script file, read and parsed;
* `loadScript`, `runSource` : a script file or a source, run.

What runs a program is a parameter, because a program can load further scripts.
-/

namespace ModuleLoader

/-- How a program is run. -/
abbrev Execute := Script.Program → Action Value

def readProgram (file : String) (source : List Char) : Action Script.Program := do
  match Script.parse (← get).system.names file source with
  | .ok program => pure program
  | .error fault => do
    if fault.position?.isSome then note (.parseError file fault.message)
    fail (.malformed file source fault)

def readSource (path : String) : Action (List Char) := do
  record (.consulted .read path)
  match (← get).system.readText path with
  | .ok text => pure text
  | .error .nulInPath => fail .nulInPath
  | .error obstacle => fail (.unreadable path obstacle)

def compileFile (path : String) : Action Compiled := do
  let source ← readSource path
  let program ← readProgram path source
  return ⟨path, program⟩

def loadScript (exec : Execute) (path : String) : Action Value := do
  let compiled ← compileFile path
  note (.executing compiled.path)
  exec compiled.program

def runSource (exec : Execute) (file : String) (source : List Char) : Action Value := do
  exec (← readProgram file source)

end ModuleLoader
