import ModuleLoader.FileSystem
import ModuleLoader.HostFunction
import ModuleLoader.Module
import ModuleLoader.Path.Policy
import ModuleLoader.Script.Parse

/-!
# Faults

Why an operation fails.

* `EvaluationFlaw` : what is wrong with a construct when it is evaluated;
* `LibraryFailure` : why a native library was not installed;
* `Expected` : what an argument should have been;
* `Fault` : the causes of failure.
-/

namespace ModuleLoader

/-- What is wrong with a construct when it is evaluated. -/
inductive EvaluationFlaw where
  | undefinedVariable (name : String)
  | undefinedFunction (name : String)
  | badCall (name : String) (flaw : ArityFlaw)
  deriving DecidableEq, Repr

def EvaluationFlaw.message : EvaluationFlaw → String
  | .undefinedVariable name => "undefined variable: " ++ name
  | .undefinedFunction name => "undefined function: " ++ name
  | .badCall name flaw => "bad call to " ++ name ++ ": " ++ flaw.message

def EvaluationFlaw.name : EvaluationFlaw → String
  | .undefinedVariable name | .undefinedFunction name | .badCall name _ => name

/-- Why a native library was not installed. -/
inductive LibraryFailure where
  | openFailed (diagnostic : String)
  | noEntryPoint
  deriving DecidableEq, Repr

inductive Expected where
  | string
  | symbolOrString
  deriving DecidableEq, Repr

def Expected.text : Expected → String
  | .string => "string"
  | .symbolOrString => "symbol or string"

inductive Fault where
  /-- An argument is of the wrong type. -/
  | argument (value : Value) (expected : Expected)
  /-- A native library was not installed. -/
  | library (path : String) (failure : LibraryFailure)
  /-- None of the candidates of a module exists. -/
  | moduleNotFound (symbol : Symbol) (searched : List String)
  /-- A script cannot be read. -/
  | unreadable (path : String) (obstacle : Obstacle)
  /-- A source is no program. -/
  | malformed (file : String) (source : List Char) (fault : Script.SourceFault)
  /-- A construct has no value. -/
  | evaluation (flaw : EvaluationFlaw) (location : Script.Location)
  /-- A host function fails. -/
  | host (failure : HostFailure)
  /-- A path holds a NUL. -/
  | nulInPath
  /-- A path cannot be taken apart. -/
  | badPath (fault : Path.Fault)
  /-- There is no working directory. -/
  | noWorkingDirectory
  /-- The links at a path lead back to themselves. -/
  | circularLinks (path : String)
  /-- A symbol was to be made of a value that is no string. -/
  | notAName (value : Value)
  /-- A value of this type cannot be looked up. -/
  | notAKey (value : Value)
  /-- A module of this name has a record already. -/
  | registeredTwice (symbol : Symbol)
  /-- A construct that has no evaluation of its own. -/
  | unknownConstruct (name : String)
  deriving Repr

def Unresolved.fault : Unresolved → Fault
  | .noWorkingDirectory => .noWorkingDirectory
  | .nulInPath => .nulInPath
  | .circularLinks path => .circularLinks path

end ModuleLoader
