import ModuleLoader.Decimal.Shortest
import ModuleLoader.Script.Program
import ModuleLoader.Symbol
import ModuleLoader.Text.Quoted

/-!
# Values

* `Library`, `Compiled` : an installed native library, and a script that was parsed and can be
  called;
* `HostFunction` : the functions that a host can hand to scripts;
* `Value` : what scripts compute with;
* `Value.ofLiteral` : the value of a literal;
* `Value.typeName`, `Value.inspect` : how messages name and show a value;
* `Value.addressMark` : what tells that a value is shown by its address;
* `Value.text` : the value as a piece of text;
* `Value.display` : how a value is printed.
-/

namespace ModuleLoader

open Decimal (Binary64)

/-- An installed native library: the path it was opened from and the handle it got. -/
structure Library where
  path : String
  handle : Nat
  deriving DecidableEq, Repr

/-- A script file that was read and parsed. Calling it runs the program. -/
structure Compiled where
  path : String
  program : Script.Program
  deriving Repr

inductive HostFunction where
  /-- Takes nothing and answers 42. -/
  | constant
  /-- The list of its two arguments. -/
  | pair
  /-- The list of its two arguments, of which the second may be left out. -/
  | optionalPair
  /-- The list of its arguments. -/
  | collect
  /-- Has a parameter that no call of a script can fill. -/
  | keyed
  /-- Takes nothing and fails. -/
  | failing
  /-- The greatest of its arguments, or of the items of its only argument. -/
  | greatest
  deriving DecidableEq, Repr

/-- What scripts compute with. -/
inductive Value where
  | nil
  | bool (value : Bool)
  | int (value : Int)
  | float (value : Binary64)
  | string (value : String)
  | symbol (symbol : Symbol)
  | list (items : List Value)
  | dict (entries : List (Value × Value))
  | library (library : Library)
  | script (compiled : Compiled)
  /-- A host function. Those that were handed over one by one differ in their labels. -/
  | host (function : HostFunction) (label : Nat)
  deriving Repr, Inhabited

def Library.text (library : Library) : String := "NativeLibrary(" ++ library.path ++ ")"

def Compiled.text (compiled : Compiled) : String := "CompiledScript(" ++ compiled.path ++ ")"

namespace Value

/-- The value of a literal. One that is no text is shown by a text, which no script gets to see. -/
def ofLiteral : Script.Literal → Value
  | .nil => .nil
  | .bool value => .bool value
  | .int value => .int value
  | .float value => .float value
  | .string value => .string value
  | .broken value => .string (String.ofList (value.points.map Script.CodePoint.shown))

def typeName : Value → String
  | .nil => "NoneType"
  | .bool _ => "bool"
  | .int _ => "int"
  | .float _ => "float"
  | .string _ => "str"
  | .symbol _ => "Symbol"
  | .list _ => "list"
  | .dict _ => "dict"
  | .library _ => "NativeLibrary"
  | .script _ => "CompiledScript"
  | .host .greatest _ => "builtin_function_or_method"
  | .host _ _ => "function"

/-- What comes before the address of a value that is shown by its address. The address itself is
left open. -/
def addressMark : String := " object at 0x"

/-- The texts with a comma and a blank between them. -/
def commaSeparated (texts : List String) : String := ", ".intercalate texts

mutual
/-- The value as messages show it. -/
def inspect : Value → String
  | .nil => "None"
  | .bool value => if value then "True" else "False"
  | .int value => toString value
  | .float value => value.text
  | .string value => Text.quoted value
  | .symbol s => s.inspect
  | .list items => "[" ++ commaSeparated (inspectAll items) ++ "]"
  | .dict entries => "\x7b" ++ commaSeparated (inspectEntries entries) ++ "\x7d"
  | .library opened =>
    "NativeLibrary(path=" ++ Text.quoted opened.path ++ ", handle=<library " ++ opened.path ++
      ">)"
  | .script _ => "<CompiledScript" ++ addressMark ++ ">"
  | .host .greatest _ => "<built-in function max>"
  | .host _ _ => "<function" ++ addressMark ++ ">"

def inspectAll : List Value → List String
  | [] => []
  | item :: items => item.inspect :: inspectAll items

def inspectEntries : List (Value × Value) → List String
  | [] => []
  | (key, value) :: entries =>
    (key.inspect ++ ": " ++ value.inspect) :: inspectEntries entries
end

/-- The value as a piece of text: strings, names and loaded files stand for themselves. -/
def text : Value → String
  | .string value => value
  | .symbol s => s.name
  | .library opened => opened.text
  | .script compiled => compiled.text
  | value => value.inspect

mutual
/-- The value as it is printed. -/
def display : Value → String
  | .nil => "nil"
  | .bool value => if value then "true" else "false"
  | .list items => "[" ++ commaSeparated (displayAll items) ++ "]"
  | value => value.text

def displayAll : List Value → List String
  | [] => []
  | item :: items => item.display :: displayAll items
end

end Value

end ModuleLoader
