import ModuleLoader.Symbol
import ModuleLoader.HostFunction

/-!
# Functions of the script language

* `Builtin` : the functions that every script has, with their names and parameters;
* `Callable` : what a call can run;
* `Builtin.table` : the functions of a fresh loader.
-/

namespace ModuleLoader

/-- The functions that every script has. -/
inductive Builtin where
  | require
  | tryRequire
  | load
  | loadLib
  | compileFile
  | fileExists
  | baseName
  | dirName
  | joinPath
  | expandPath
  | print
  deriving DecidableEq, Repr

namespace Builtin

def all : List Builtin :=
  [.require, .tryRequire, .load, .loadLib, .compileFile, .fileExists, .baseName, .dirName,
    .joinPath, .expandPath, .print]

def name : Builtin → String
  | .require => "Require"
  | .tryRequire => "TryRequire"
  | .load => "Load"
  | .loadLib => "LoadLib"
  | .compileFile => "CompileFile"
  | .fileExists => "FileExists"
  | .baseName => "BaseName"
  | .dirName => "DirName"
  | .joinPath => "JoinPath"
  | .expandPath => "ExpandPath"
  | .print => "Print"

def signature : Builtin → Signature
  | .require | .tryRequire => ⟨["module"], [], false, []⟩
  | .joinPath => ⟨["directory", "name"], [], false, []⟩
  | .print => ⟨[], [], true, []⟩
  | _ => ⟨["path"], [], false, []⟩

end Builtin

/-- What a call can run. -/
inductive Callable where
  | builtin (function : Builtin)
  | host (function : HostFunction)
  | script (compiled : Compiled)
  deriving Repr

namespace Callable

/-- The parameters that a call is checked against; a compiled script takes none. -/
def signature? : Callable → Option Signature
  | .builtin function => some function.signature
  | .host function => function.signature?
  | .script _ => some ⟨[], [], false, []⟩

/-- What a call of a value runs, if it can be called. -/
def ofValue? : Value → Option Callable
  | .host function _ => some (.host function)
  | .script compiled => some (.script compiled)
  | _ => none

end Callable

def Builtin.table : Bindings Callable :=
  ⟨Builtin.all.map (fun function => (⟨function.name⟩, .builtin function))⟩

end ModuleLoader
