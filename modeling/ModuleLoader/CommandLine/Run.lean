import ModuleLoader.CommandLine.Request
import ModuleLoader.Session

/-!
# Running a command line

* `Response` : the exit status or the failure that escapes, and what is written;
* `absolutePath` : the script path as it is passed on, with its links followed;
* `flagValue` : the value that a flag hands over;
* `serve` : the modules required and the script run, with the complaint that ends it early;
* `complaintOf?` : which failures are told and which escape;
* `respondWithin`, `respond` : the response to a command line, with scripts nested to some depth, or
  to the limit.
-/

namespace ModuleLoader.CommandLine

/-- What a command line leads to: the exit status or the failure that escapes, what is written,
and what happened to libraries. -/
structure Response where
  exit : Except Report Nat
  output : String
  errors : String
  events : List Event

def Response.plain (status : Nat) (output errors : String) : Response :=
  ⟨.ok status, output, errors, []⟩

def absolutePath (path : String) : Action String := do
  let system := (← get).system
  match system.resolution system.place? path with
  | .ok place => return String.ofList ('/' :: Text.join ['/'] place)
  | .error unresolved => fail unresolved.fault

/-- Why a path cannot be the script's: there is no regular file, or the path is too long to
tell. A path that has no place, as one with a NUL, does not get here. -/
def scriptObstacle? (system : System) (path : String) : Option String :=
  match system.files.find system.place? (tidy path.toList) with
  | .ok (.file _) => none
  | .error .nameTooLong =>
    some ("could not read file: [Errno 36] " ++ Obstacle.nameTooLong.message ++ ": " ++
      Text.quoted path)
  | _ => some ("not a file: " ++ path)

/-- The value that a flag hands over: a text, or an empty list where it names nothing. -/
def flagValue (name : Option String) : Value := name.elim (.list []) .string

/-- Requires the modules and runs the script. The answer is what there is to complain about. -/
def serve (exec : Execute) (request : Request) : Action (Option String) := do
  request.modules.forM (fun name => discard (requireOrFail exec (flagValue name)))
  match request.file with
  | none => return none
  | some file => do
    let path ← absolutePath file
    record (.consulted .probe path)
    match scriptObstacle? (← get).system path with
    | some complaint => return some complaint
    | none => do
      discard (loadScript exec path)
      return none

/-- What is said about a failure, if it does not escape. -/
def complaintOf? (color : Bool) (report : Report) : Option String :=
  match report with
  | .missingFile text => some ("could not read file: " ++ text)
  | other => if other.isForeseen then some (other.message color) else none

/-- The notes that are shown: all of them on request, else those of errors. -/
def shownNotes (verbose : Bool) (events : List Event) : String :=
  String.join (((notes events).filter (fun n => verbose || n.level == .error)).map
    (fun n => n.line ++ "\n"))

/-- The program's name before a complaint. -/
def complain (text : String) : String := programName ++ ": error: " ++ text ++ "\n"

def Request.settings (request : Request) : Settings :=
  { searchPaths := if request.searchPath.isEmpty then none else some request.searchPath }

/-- The response to a request. Scripts may be nested to the given depth. -/
def respondTo (depth : Nat) (system : System) (request : Request) : Response :=
  let (started, ready) := observe (start request.settings) (Machine.blank system)
  let early := shownNotes request.verbose started.events
  match started.result with
  | .error stop => ⟨.error stop.report, "", early, started.events⟩
  | .ok _ =>
    let (served, _) := observe (serve (execute depth) request) ready
    let events := started.events ++ served.events
    let shown := early ++ shownNotes request.verbose served.events
    let output := printedText served.events
    match served.result with
    | .ok none => ⟨.ok 0, output, shown, events⟩
    | .ok (some complaint) => ⟨.ok 1, output, shown ++ complain complaint, events⟩
    | .error stop =>
      match complaintOf? served.color stop.report with
      | some text => ⟨.ok 1, output, shown ++ complain text, events⟩
      | none => ⟨.error stop.report, output, shown, events⟩

/-- The response to a command line. Scripts may be nested to the given depth. -/
def respondWithin (depth : Nat) (system : System) (arguments : List String) : Response :=
  match Request.ofArguments arguments with
  | .error .help => .plain 0 help ""
  | .error (.complaint complaint) => .plain 2 "" (usage ++ complain complaint.message)
  | .ok request =>
    if request.file.isNone && request.modules.isEmpty then .plain 1 "" usage
    else respondTo depth system request

def respond (system : System) (arguments : List String) : Response :=
  respondWithin nestingLimit system arguments

end ModuleLoader.CommandLine
