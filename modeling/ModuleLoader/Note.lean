import ModuleLoader.Module

/-!
# Notes

What the loader notes down about its work, for those who follow it.

* `Note` : the things noted;
* `Level`, `Note.level`, `Note.topic`, `Note.message` : how a note is shown.
-/

namespace ModuleLoader

/-- What is worth noting. -/
inductive Note where
  /-- No account has this login; the empty login is the user's own. -/
  | unknownAccount (login : String)
  /-- The path names no home directory. -/
  | noHome (path : String)
  /-- The path is relative and there is no working directory. -/
  | noWorkingDirectory (path : String)
  | searchPath (directories : List SearchDirectory)
  | alreadyLoaded (name path : String)
  | probing (path : String)
  | notFound (name : String)
  | loadingScript (path name : String)
  | executing (path : String)
  | running (file : String) (statements : Nat)
  | openFailure (diagnostic : String)
  | installed (path : String)
  | parseError (file message : String)
  deriving DecidableEq, Repr

inductive Level where
  | debug
  | error
  deriving DecidableEq, Repr

def Level.text : Level → String
  | .debug => "DEBUG"
  | .error => "ERROR"

namespace Note

/-- Only a library that cannot be opened is an error. -/
def level : Note → Level
  | .openFailure _ => .error
  | _ => .debug

def topic : Note → String
  | .unknownAccount _ => "loadpath.paths.home"
  | .noHome _ | .noWorkingDirectory _ => "loadpath.paths.expand"
  | .searchPath _ | .alreadyLoaded _ _ | .probing _ | .notFound _
  | .loadingScript _ _ => "loadpath.loader.resolver"
  | .executing _ => "loadpath.runtime.runtime"
  | .running _ _ => "loadpath.runtime.interpreter"
  | .openFailure _ | .installed _ => "loadpath.loader.dylib"
  | .parseError _ _ => "loadpath.frontend.parser"

def message : Note → String
  | .unknownAccount login =>
    "No account database entry for " ++
      Text.quoted (if login.isEmpty then "current user" else login)
  | .noHome path => "Cannot expand " ++ Text.quoted path ++ ": unknown account"
  | .noWorkingDirectory path =>
    "Cannot expand " ++ Text.quoted path ++
      ": no working directory ([Errno 2] No such file or directory)"
  | .searchPath directories =>
    "Module search path: [" ++ ", ".intercalate (directories.map SearchDirectory.shown) ++ "]"
  | .alreadyLoaded name path => "Module " ++ name ++ " already loaded from " ++ path
  | .probing path => "Probing " ++ path
  | .notFound name => "Module " ++ name ++ " not found"
  | .loadingScript path name => "Loading script " ++ path ++ " for module " ++ name
  | .executing path => "Executing script " ++ path
  | .running file statements =>
    "Running " ++ file ++ ": " ++ toString statements ++ " statements"
  | .openFailure diagnostic => diagnostic
  | .installed path => "Installed native library " ++ path
  | .parseError file message => "Parse error in " ++ file ++ ": " ++ message

def line (note : Note) : String := note.topic ++ ": " ++ note.level.text ++ ": " ++ note.message

end Note

end ModuleLoader
