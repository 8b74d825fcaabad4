import ModuleLoader.Builtin
import ModuleLoader.Fault
import ModuleLoader.Note
import ModuleLoader.System

/-!
# The state of a loader

* `Configuration` : what is fixed when a loader starts;
* `FileUse`, `LibraryStep`, `Event` : what the trace tells;
* `Machine`, `Machine.record` : the state, which events alone change while scripts run; its trace
  is kept with the latest event first;
* `Stop`, `Action` : a computation on the state, which can fail, run out of depth or meet what is
  left open, and then leaves the state as it was at that moment;
* `record`, `note`, `fail` : the elementary actions.
-/

namespace ModuleLoader

/-- What is fixed when a loader starts: the search directories if they are given, the extensions,
the directory of the program, the environment and the name of the entry point of libraries. -/
structure Configuration where
  searchPaths : Option (List SearchDirectory)
  extensions : List Extension
  exeDir : String
  environment : List (String × String)
  entryPoint : String
  deriving DecidableEq, Repr

namespace Configuration

/-- The search directories: those given, else those that the environment lists, else the working
directory and that of the program. -/
def searchPath (c : Configuration) : List SearchDirectory :=
  match c.searchPaths with
  | some directories => directories
  | none =>
    let configured := (c.environment.lookup "LOADPATH_LIB").getD ""
    if configured.isEmpty then [.named ".", .named c.exeDir]
    else SearchDirectory.listed configured

/-- The files that may hold a module of that name, in the order of trial. -/
def candidates (c : Configuration) (name : String) : List Candidate :=
  candidatesIn c.searchPath c.extensions name

end Configuration

/-- What a file is wanted for. -/
inductive FileUse where
  /-- To know whether it exists. -/
  | probe
  /-- To read its text. -/
  | read
  /-- To load it as a native library. -/
  | load
  deriving DecidableEq, Repr

inductive LibraryStep where
  | opened
  | installed
  | closed
  deriving DecidableEq, Repr

/-- What the trace tells. -/
inductive Event where
  | printed (text : String)
  | library (step : LibraryStep) (path : String) (handle : Nat)
  | consulted (purpose : FileUse) (path : String)
  | noted (note : Note)
  /-- The search path was put together. -/
  | settled (directories : List SearchDirectory)
  /-- A file is going to be loaded for a symbol. -/
  | chosen (symbol : Symbol) (candidate : Candidate)
  /-- The library chosen for a symbol was opened, and its entry point came back. -/
  | delivered (symbol : Symbol) (library : Library)
  /-- A library that was loaded by its path went to who asked for it. -/
  | handed (library : Library)
  /-- A module got its record. -/
  | registered (loaded : LoadedModule)
  /-- A global was bound. -/
  | bound (name : Symbol) (value : Value)
  deriving Repr

/-- The state of a loader in its system. The search path is there once it was used, and the
trace has the latest event first. -/
structure Machine where
  system : System
  configuration : Configuration
  builtins : Bindings Callable
  globals : Bindings Value
  registry : Registry
  searchPath : Option (List SearchDirectory)
  trace : List Event

namespace Machine

def record (m : Machine) (event : Event) : Machine :=
  let told := { m with trace := event :: m.trace }
  match event with
  | .settled directories => { told with searchPath := some directories }
  | .registered loaded => { told with registry := (m.registry.insert? loaded).getD m.registry }
  | .bound name value => { told with globals := m.globals.set name value }
  | _ => told

def openedCount (m : Machine) : Nat :=
  m.trace.countP (fun event => match event with
    | .library .opened _ _ => true
    | _ => false)

/-- What a call of that name runs: a function of the table, else a global that can be called. -/
def callable? (m : Machine) (name : String) : Option Callable :=
  m.builtins.get? ⟨name⟩ <|> (m.globals.get? ⟨name⟩).bind Callable.ofValue?

end Machine

/-- Why a computation stops early. -/
inductive Stop where
  | fault (fault : Fault)
  /-- Scripts are nested deeper than was allowed. -/
  | exhausted
  /-- A script has a string that is no text. What it would do with that is left open. -/
  | brokenText
  deriving Repr

/-- A computation on the state of a loader. -/
abbrev Action := ExceptT Stop (StateM Machine)

def record (event : Event) : Action Unit := modify (fun m => m.record event)

def note (n : Note) : Action Unit := record (.noted n)

def fail {α : Type} (fault : Fault) : Action α := throw (.fault fault)

end ModuleLoader
