import ModuleLoader.Load.Native

/-!
# Requiring modules

A module is loaded when its symbol is required for the first time. Its candidates are tried
directory by directory, and the first that exists is loaded.

* `Registry.insert`, `Registry.contains` : a record made unless its symbol has one, and whether a
  value is a symbol with a record;
* `Requirement` : what became of a require;
* `symbolOf`, `moduleSymbol` : the symbol that a value names;
* `useSearchPath`, `candidates` : the search path, fixed when it is first used, and the files
  that may hold a module;
* `firstExisting` : the first candidate that exists;
* `register`, `loadCandidate` : a record made, and a file loaded under a symbol;
* `require`, `requireOrFail` : the module of a symbol.
-/

namespace ModuleLoader

/-- The value can be looked up: it cannot be changed in place. -/
def Value.isHashable : Value → Bool
  | .list _ | .dict _ => false
  | _ => true

namespace Registry

def insert (registry : Registry) (m : LoadedModule) : Except Fault Registry :=
  match registry.insert? m with
  | some extended => .ok extended
  | none => .error (.registeredTwice m.symbol)

/-- The value is a symbol that has a record. A string is no symbol. -/
def contains (registry : Registry) (value : Value) : Except Fault Bool :=
  match value with
  | .symbol s => .ok (registry.find? s).isSome
  | other => if other.isHashable then .ok false else .error (.notAKey other)

end Registry

inductive Requirement where
  | alreadyLoaded (m : LoadedModule)
  | resolved (m : LoadedModule)
  | notFound (symbol : Symbol)
  deriving DecidableEq, Repr

def Requirement.module? : Requirement → Option LoadedModule
  | .alreadyLoaded m | .resolved m => some m
  | .notFound _ => none

def Requirement.symbol : Requirement → Symbol
  | .alreadyLoaded m | .resolved m => m.symbol
  | .notFound symbol => symbol

def symbolOf : Value → Action Symbol
  | .symbol s => pure s
  | .string text => pure ⟨text⟩
  | value => fail (.notAName value)

def moduleSymbol : Value → Action Symbol
  | .symbol s => pure s
  | .string text => pure ⟨text⟩
  | value => fail (.argument value .symbolOrString)

/-- The search path. It is put together when it is first used and stays the same. -/
def useSearchPath : Action (List SearchDirectory) := do
  let m ← get
  match m.searchPath with
  | some directories => pure directories
  | none =>
    let directories := m.configuration.searchPath
    note (.searchPath directories)
    record (.settled directories)
    pure directories

def candidates (name : String) : Action (List Candidate) := do
  let directories ← useSearchPath
  return candidatesIn directories (← get).configuration.extensions name

def firstExisting : List Candidate → Action (Option Candidate)
  | [] => pure none
  | candidate :: rest => do
    note (.probing candidate.path)
    if ← fileExists candidate.path then pure (some candidate) else firstExisting rest

def register (m : LoadedModule) : Action Unit := do
  match (← get).registry.insert m with
  | .ok _ => record (.registered m)
  | .error fault => fail fault

/-- Loads a file under a symbol. A script has its record before it runs, so that requiring it
again from within does nothing; a library has it once it is installed. -/
def loadCandidate (exec : Execute) (symbol : Symbol) (candidate : Candidate) :
    Action LoadedModule := do
  record (.chosen symbol candidate)
  match candidate.kind with
  | .nativeLibrary => do
    let library ← installLibrary exec candidate.path
    record (.delivered symbol library)
    let m : LoadedModule := ⟨symbol, .nativeLibrary, candidate.path, some library⟩
    register m
    return m
  | .scriptSource => do
    let m : LoadedModule := ⟨symbol, .scriptSource, candidate.path, none⟩
    register m
    note (.loadingScript candidate.path symbol.name)
    discard (loadScript exec candidate.path)
    return m

/-- The module of a symbol, loaded if it has no record yet. -/
def requireSymbol (exec : Execute) (symbol : Symbol) : Action Requirement := do
  match (← get).registry.find? symbol with
  | some m => do
    note (.alreadyLoaded symbol.name m.path)
    return .alreadyLoaded m
  | none => do
    match ← firstExisting (← candidates symbol.name) with
    | some candidate => return .resolved (← loadCandidate exec symbol candidate)
    | none => do
      note (.notFound symbol.name)
      return .notFound symbol

def require (exec : Execute) (value : Value) : Action Requirement := do
  requireSymbol exec (← moduleSymbol value)

/-- The module that a value names; a module without a file is a fault. -/
def requireOrFail (exec : Execute) (value : Value) : Action Requirement := do
  match ← require exec value with
  | .notFound symbol => do
    let searched := (← candidates symbol.name).map Candidate.path
    fail (.moduleNotFound symbol searched)
  | requirement => return requirement

end ModuleLoader
