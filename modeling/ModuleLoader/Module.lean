import ModuleLoader.Path.Policy
import ModuleLoader.Text.Quoted
import ModuleLoader.Value

/-!
# Modules

A module is searched for in a list of directories. A directory may have been asked for without being
named; it then stands for an empty list, in paths as well as in messages.

* `SearchDirectory` : a directory of a search path, in paths (`text`) and in messages (`shown`);
* `SearchDirectory.listed` : the directories that a text lists;
* `Kind` : what a module file is loaded as;
* `Extension`, `Extension.standard` : which files a module name may stand for;
* `Candidate`, `candidatesIn` : the files that may hold a module, in the order of trial;
* `LoadedModule` : the record of a module that was found;
* `Registry`, `Registry.find?`, `Registry.insert?` : the records in the order in which they were
  made, one for each symbol;
* `find?_of_insert?`, `modules_of_insert?`, `insert?_eq_none_iff` : a new record comes last, and
  no symbol gets a second one.
-/

namespace ModuleLoader

inductive SearchDirectory where
  | named (path : String)
  | unnamed
  deriving DecidableEq, Repr

namespace SearchDirectory

def text : SearchDirectory → String
  | .named path => path
  | .unnamed => "[]"

def shown : SearchDirectory → String
  | .named path => Text.quoted path
  | .unnamed => "[]"

/-- The directories of a list with colons between them. Empty pieces name none. -/
def listed (text : String) : List SearchDirectory :=
  ((Text.split [':'] text.toList).filter (fun piece => !piece.isEmpty)).map
    (fun piece => .named (String.ofList piece))

end SearchDirectory

/-- What a module file is loaded as. -/
inductive Kind where
  | nativeLibrary
  | scriptSource
  deriving DecidableEq, Repr

def Kind.text : Kind → String
  | .nativeLibrary => "native_library"
  | .scriptSource => "script_source"

/-- The end of a file name, and what a file of such a name is loaded as. -/
structure Extension where
  suffix : String
  kind : Kind
  deriving DecidableEq, Repr

/-- Native libraries come before scripts. -/
def Extension.standard : List Extension := [⟨".so", .nativeLibrary⟩, ⟨".lps", .scriptSource⟩]

/-- A file that may hold a module. -/
structure Candidate where
  path : String
  kind : Kind
  deriving DecidableEq, Repr

/-- The files that may hold a module of that name: directory by directory, and in each one
extension by extension. -/
def candidatesIn (directories : List SearchDirectory) (extensions : List Extension)
    (name : String) : List Candidate :=
  directories.flatMap (fun directory =>
    extensions.map (fun extension =>
      ⟨Path.Policy.standard.join directory.text name ++ extension.suffix, extension.kind⟩))

/-- The record of a module: the symbol it was required under, the file that was loaded, and the
library if it is a native one. -/
structure LoadedModule where
  symbol : Symbol
  kind : Kind
  path : String
  library : Option Library
  deriving DecidableEq, Repr

def LoadedModule.text (m : LoadedModule) : String :=
  "Module(" ++ m.symbol.name ++ ", " ++ m.kind.text ++ ", " ++ m.path ++ ")"

/-- The records of loaded modules in the order in which they were made. -/
structure Registry where
  modules : List LoadedModule
  deriving DecidableEq, Repr

namespace Registry

def empty : Registry := ⟨[]⟩

def find? (registry : Registry) (symbol : Symbol) : Option LoadedModule :=
  registry.modules.find? (fun m => m.symbol.same symbol)

/-- The registry with one more record; none if its symbol has one already. -/
def insert? (registry : Registry) (m : LoadedModule) : Option Registry :=
  match registry.find? m.symbol with
  | some _ => none
  | none => some ⟨registry.modules ++ [m]⟩

/-- A record is refused exactly when its symbol has one. -/
theorem insert?_eq_none_iff (registry : Registry) (m : LoadedModule) :
    registry.insert? m = none ↔ ∃ old, registry.find? m.symbol = some old := by
  unfold insert?
  cases registry.find? m.symbol <;> simp

theorem modules_of_insert? {registry extended : Registry} {m : LoadedModule}
    (h : registry.insert? m = some extended) : extended.modules = registry.modules ++ [m] := by
  unfold insert? at h
  cases hf : registry.find? m.symbol with
  | some old => simp [hf] at h
  | none =>
    rw [hf] at h
    exact congrArg Registry.modules (Option.some.inj h).symm

theorem find?_of_insert? {registry extended : Registry} {m : LoadedModule}
    (h : registry.insert? m = some extended) (symbol : Symbol) :
    extended.find? symbol = if m.symbol.same symbol then some m else registry.find? symbol := by
  have hm := modules_of_insert? h
  have hnew : registry.find? m.symbol = none := by
    cases hf : registry.find? m.symbol with
    | none => rfl
    | some old => simp [insert?, hf] at h
  simp only [find?, hm, List.find?_append, List.find?_singleton]
  by_cases hs : m.symbol.same symbol
  · have hnone : registry.modules.find? (fun m => m.symbol.same symbol) = none := by
      have hk := (Symbol.same_iff _ _).1 hs
      simpa [find?, Symbol.same, hk] using hnew
    simp [hs, hnone]
  · simp [hs]

end Registry

end ModuleLoader
