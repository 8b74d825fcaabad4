import ModuleLoader.Evaluation
import ModuleLoader.Report

/-!
# Sessions

A host starts a loader and asks it for one thing after another. The state carries on after a
failure.

* `initialGlobals` : the bindings of a fresh loader;
* `Settings`, `start` : what a host may fix, and the start of a loader;
* `Operation`, `Answer` : what a host can ask for, and what it is told;
* `perform` : the answer to an operation;
* `Outcome`, `observe` : a result with what happened meanwhile;
* `runNested`, `runOperations` : the outcomes of operations, one after another;
* `Turn`, `runTurns` : what a host asks of one loader, and the outcomes of that.
-/

namespace ModuleLoader

def environmentGlobal : Symbol := ⟨"_ENV_"⟩

def exeDirGlobal : Symbol := ⟨"_EXEDIR_"⟩

def environmentValue (environment : List (String × String)) : Value :=
  .dict (environment.map (fun entry => (.string entry.1, .string entry.2)))

def initialGlobals (exeDir : Option String) (environment : List (String × String)) :
    Bindings Value :=
  let start := (Bindings.empty).set environmentGlobal (environmentValue environment)
  match exeDir with
  | some directory => start.set exeDirGlobal (.string directory)
  | none => start

def standardEntryPoint : String := "loadpath_install"

/-- What a host may fix when it starts a loader. -/
structure Settings where
  searchPaths : Option (List SearchDirectory) := none
  extensions : Option (List Extension) := none
  exeDir : Option String := none
  environment : Option (List (String × String)) := none
  entryPoint : String := standardEntryPoint
  deriving DecidableEq, Repr

/-- A system in which no loader was started. -/
def Machine.blank (system : System) : Machine where
  system := system
  configuration := ⟨none, Extension.standard, "", [], standardEntryPoint⟩
  builtins := Builtin.table
  globals := Bindings.empty
  registry := Registry.empty
  searchPath := none
  trace := []

def Machine.restart (m : Machine) (configuration : Configuration) : Machine :=
  { m with
    configuration := configuration
    builtins := Builtin.table
    globals := initialGlobals (some configuration.exeDir) configuration.environment
    registry := Registry.empty
    searchPath := none }

/-- Starts a loader. What is not fixed comes from the system as it is now. -/
def start (settings : Settings) : Action Unit := do
  let exeDir ← match settings.exeDir with
    | some directory => pure directory
    | none => programDirectory
  let environment := settings.environment.getD (← get).system.environment
  let extensions := settings.extensions.getD Extension.standard
  modify (fun m =>
    m.restart ⟨settings.searchPaths, extensions, exeDir, environment, settings.entryPoint⟩)

inductive Operation where
  | runSource (file source : String)
  | require (module : Value)
  | requireOrFail (module : Value)
  | loadScript (path : Value)
  | compileFile (path : Value)
  | loadLibrary (path : Value)
  /-- One of the functions that scripts have. -/
  | call (function : Builtin) (arguments : List Value)
  /-- A script that was compiled before. -/
  | callScript (compiled : Compiled)
  | isLoaded (module : Value)
  | modules
  | searchPath
  | extensions
  | candidates (name : String)
  | bindGlobal (name value : Value)
  | getGlobal (name default : Value)
  | hasGlobal (name : Value)
  | globals
  | exeDir
  | environment
  | define (name : Value) (function : HostFunction)
  | write (path : String) (node : Node)
  | delete (path : String)
  | enter (path : Option String)
  | setEnvironment (environment : List (String × String))
  /-- A fresh loader in the same system. -/
  | restart
  deriving Repr

/-- The operation puts a fresh loader in the place of the present one. -/
def Operation.startsAfresh : Operation → Bool
  | .restart => true
  | _ => false

inductive Answer where
  | done
  | truth (value : Bool)
  | value (value : Value)
  | requirement (requirement : Requirement)
  | executed (path : String) (value : Value)
  | compiled (compiled : Compiled)
  | library (library : Library)
  | modules (modules : List LoadedModule)
  | texts (texts : List String)
  | extensions (extensions : List Extension)
  | candidates (candidates : List Candidate)
  deriving Repr

def changeSystem (change : System → System) : Action Answer := do
  modify (fun m => { m with system := change m.system })
  return .done

/-- The answer to an operation. Scripts may be nested to the given depth. -/
def perform (settings : Settings) (depth : Nat) : Operation → Action Answer
  | .runSource file source => .value <$> runSource (execute depth) file source.toList
  | .require module => .requirement <$> ModuleLoader.require (execute depth) module
  | .requireOrFail module => .requirement <$> requireOrFail (execute depth) module
  | .loadScript path => do
    let path ← stringOf path
    return .executed path (← loadScript (execute depth) path)
  | .compileFile path => do return .compiled (← compileFile (← stringOf path))
  | .loadLibrary path => do
    return .library (← loadLibrary (execute depth) (← stringOf path))
  | .call function arguments => .value <$> function.call (execute depth) arguments
  | .callScript compiled => .value <$> execute depth compiled.program
  | .isLoaded module => do
    let s ← symbolOf module
    return .truth ((← get).registry.find? s).isSome
  | .modules => do return .modules (← get).registry.modules
  | .searchPath => do return .texts ((← useSearchPath).map SearchDirectory.text)
  | .extensions => do return .extensions (← get).configuration.extensions
  | .candidates name => .candidates <$> candidates name
  | .bindGlobal name value => do
    bindGlobal (← symbolOf name) value
    return .done
  | .getGlobal name default => do
    let s ← symbolOf name
    return .value (((← get).globals.get? s).getD default)
  | .hasGlobal name => do
    let s ← symbolOf name
    return .truth ((← get).globals.get? s).isSome
  | .globals => do return .texts ((← get).globals.names.map Symbol.name)
  | .exeDir => do return .value (((← get).globals.get? exeDirGlobal).getD .nil)
  | .environment => do return .value (((← get).globals.get? environmentGlobal).getD (.dict []))
  | .define name function => do
    let s ← symbolOf name
    modify (fun m => { m with builtins := m.builtins.set s (.host function) })
    return .done
  | .write path node => changeSystem (fun system => system.write path node)
  | .delete path => changeSystem (fun system => system.delete path)
  | .enter path => changeSystem (fun system => system.enter path)
  | .setEnvironment environment =>
    changeSystem (fun system => { system with environment := environment })
  | .restart => do
    start settings
    return .done

/-! ## What happened -/

/-- What came of a computation: its result, the events in order, and whether messages are
coloured. -/
structure Outcome (α : Type) where
  result : Except Stop α
  events : List Event
  color : Bool

def Stop.report : Stop → Report
  | .fault cause => cause.report
  | .exhausted => .tooDeep
  | .brokenText => .wrongValue "surrogates not allowed"

/-- The events that led from one state to a later one, in order. -/
def Machine.since (after before : Machine) : List Event :=
  (after.trace.take (after.trace.length - before.trace.length)).reverse

/-- The outcome of a computation, and the state after it. -/
def observe {α : Type} (action : Action α) (m : Machine) : Outcome α × Machine :=
  let (result, after) := action.run.run m
  (⟨result, after.since m, usesColor after.system.environment⟩, after)

def printedText (events : List Event) : String :=
  String.join (events.filterMap (fun event => match event with
    | .printed text => some text
    | _ => none))

def libraryEvents (events : List Event) : List (LibraryStep × String × Nat) :=
  events.filterMap (fun event => match event with
    | .library step path handle => some (step, path, handle)
    | _ => none)

def notes (events : List Event) : List Note :=
  events.filterMap (fun event => match event with
    | .noted note => some note
    | _ => none)

/-- Scripts are nested less deep than this. It stands for the limit on the stack of calls, which is
not modelled: how many calls a script needs is left open. -/
def nestingLimit : Nat := 1000

/-- The outcomes of operations, one after another, each with how deep scripts may be nested. -/
def runNested (settings : Settings) : Machine → List (Nat × Operation) → List (Outcome Answer)
  | _, [] => []
  | m, (depth, operation) :: rest =>
    let (outcome, after) := observe (perform settings depth operation) m
    outcome :: runNested settings after rest

def runOperations (settings : Settings) (m : Machine) (operations : List Operation) :
    List (Outcome Answer) :=
  runNested settings m (operations.map (fun operation => (nestingLimit, operation)))

/-! ## One loader -/

/-- An operation on a loader that stays the same one, and how deep scripts may be nested
meanwhile. -/
structure Turn where
  depth : Nat
  operation : Operation
  keeps : operation.startsAfresh = false

/-- The outcomes of turns, one after another. -/
def runTurns (settings : Settings) (m : Machine) (turns : List Turn) : List (Outcome Answer) :=
  runNested settings m (turns.map (fun t => (t.depth, t.operation)))

end ModuleLoader
