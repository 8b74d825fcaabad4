import ModuleLoader.Diagnostic
import ModuleLoader.Fault

/-!
# Reports

How a failure is told: its class, what it carries and its wording. A host can make reports of its
own.

* `Report` : the classes of failures with what they carry;
* `Fault.report` : the report of a fault;
* `Report.message` : the wording, coloured or not;
* `Report.isForeseen` : the report is one of those that scripts and files can bring about;
* `Report.message?` : the wording unless it shows an address.
-/

namespace ModuleLoader

inductive Report where
  | argumentType (value : Value) (expected : String)
  | libraryOpen (path : String) (diagnostic : Option String)
  | libraryEntryPoint (path : String) (diagnostic : Option String)
  | moduleNotFound (symbol : String) (searched : List String)
  | scriptRead (path reason : String)
  | scriptSyntax (text file : String) (location : Option Script.Location) (source : Option String)
  | scriptRuntime (text : String) (value : Value) (location : Option Script.Location)
  | general (text : String)
  | implementation (text code : String)
  | wrongValue (text : String)
  | wrongType (text : String)
  | missingKey (text : String)
  | missingFile (text : String)
  /-- Scripts are nested too deep. -/
  | tooDeep
  deriving Repr

def implementationCode : String := "E9999"

def syntaxCode : String := "S0001"

def HostFailure.report (failure : HostFailure) : Report :=
  match failure with
  | .always => .missingKey failure.message
  | .noItems => .wrongValue failure.message
  | .noArguments | .notIterable _ | .noOrder _ _ => .wrongType failure.message

def Fault.report : Fault → Report
  | .argument value expected => .argumentType value expected.text
  | .library path (.openFailed diagnostic) => .libraryOpen path (some diagnostic)
  | .library path .noEntryPoint => .libraryEntryPoint path none
  | .moduleNotFound symbol searched => .moduleNotFound symbol.name searched
  | .unreadable path obstacle => .scriptRead path obstacle.message
  | .malformed file source fault =>
    .scriptSyntax fault.message file (fault.position?.map (Script.Location.ofPosition file))
      (some (String.ofList source))
  | .evaluation flaw location => .scriptRuntime flaw.message (.string flaw.name) (some location)
  | .host failure => failure.report
  | .nulInPath => .wrongValue Obstacle.nulInPath.message
  | .badPath fault => .wrongValue fault.message
  | .circularLinks path => .wrongValue ("Symlink loop from " ++ Text.quoted path)
  | .noWorkingDirectory => .missingFile ("[Errno 2] " ++ Obstacle.noSuchEntry.message)
  | .notAName value => .wrongType ("Symbol name must be a string, got " ++ value.typeName)
  | .notAKey value => .wrongType ("unhashable type: '" ++ value.typeName ++ "'")
  | .registeredTwice symbol =>
    .implementation ("Module " ++ symbol.name ++ " registered twice") implementationCode
  | .unknownConstruct name => .implementation ("Unknown node type: " ++ name) implementationCode

namespace Report

/-- A text with a nonempty remark behind it. -/
def withRemark (text : String) (remark : Option String) : String :=
  match remark with
  | some more => if more.isEmpty then text else text ++ ": " ++ more
  | none => text

def message (color : Bool) : Report → String
  | .argumentType value expected =>
    "expected a " ++ expected ++ ", got " ++ value.typeName ++ ": " ++ value.inspect
  | .libraryOpen path diagnostic =>
    withRemark ("cannot open dynamic library: " ++ path) diagnostic
  | .libraryEntryPoint path diagnostic =>
    withRemark ("not a loadable module (no install entry point): " ++ path) diagnostic
  | .moduleNotFound symbol searched =>
    let text := "module not found: " ++ symbol
    if searched.isEmpty then text
    else text ++ " (searched: " ++ ", ".intercalate searched ++ ")"
  | .scriptRead path reason => "cannot read script " ++ path ++ ": " ++ reason
  | .scriptSyntax text file none _ => text ++ " in " ++ file
  | .scriptSyntax text _ (some location) source =>
    Diagnostic.render color ⟨text, some location, source, some syntaxCode⟩
  | .scriptRuntime text _ none => text
  | .scriptRuntime text _ (some location) => text ++ "\n --> " ++ location.text
  | .general text => text
  | .implementation text code => "[" ++ code ++ "] " ++ text
  | .wrongValue text | .wrongType text | .missingKey text | .missingFile text => text
  | .tooDeep => "maximum recursion depth exceeded"

/-- Scripts and files can bring the report about, and no broken invariant does. -/
def isForeseen : Report → Bool
  | .implementation _ _ | .wrongValue _ | .wrongType _ | .missingKey _ | .missingFile _
  | .tooDeep => false
  | _ => true

/-- The wording, if it is the same whenever the failure comes about: it must not look as if it
shows an address. -/
def message? (color : Bool) (report : Report) : Option String :=
  let wording := report.message color
  if Text.occursIn Value.addressMark.toList wording.toList then none else some wording

end Report

end ModuleLoader
