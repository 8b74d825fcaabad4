import ModuleLoader.Value.Equality

/-!
# Calling host functions

Arguments are given by position. A call is checked against the signature of the function before
the function sees its arguments.

* `Signature`, `ArityFlaw` : the parameters of a function, and what is wrong with a number of
  arguments;
* `Signature.flaw?` : the flaw that a call is refused for, if any;
* `HostFailure` : why a host function fails, with the wording;
* `HostFunction.signature?` : the parameters that calls are checked against, if any are known;
* `HostFunction.call` : the answer to arguments.
-/

namespace ModuleLoader

/-- The parameters of a function: those that need an argument, those that may go without,
whether more arguments are taken, and those that no position fills. -/
structure Signature where
  required : List String
  optional : List String := []
  variadic : Bool := false
  named : List String := []
  deriving DecidableEq, Repr

inductive ArityFlaw where
  | missing (parameter : String)
  | tooMany
  deriving DecidableEq, Repr

def ArityFlaw.message : ArityFlaw → String
  | .missing parameter => "missing a required argument: '" ++ parameter ++ "'"
  | .tooMany => "too many positional arguments"

def Signature.flaw? (s : Signature) (count : Nat) : Option ArityFlaw :=
  match s.required.drop count with
  | parameter :: _ => some (.missing parameter)
  | [] =>
    if !s.variadic && s.required.length + s.optional.length < count then some .tooMany
    else s.named.head?.map .missing

inductive HostFailure where
  /-- The function fails whenever it is called. -/
  | always
  /-- There is nothing to compare. -/
  | noArguments
  /-- The only argument is a list without items. -/
  | noItems
  /-- The only argument has no items. -/
  | notIterable (typeName : String)
  /-- Values of these types have no order. -/
  | noOrder (first second : String)
  deriving DecidableEq, Repr

def HostFailure.message : HostFailure → String
  | .always => Text.quoted "inner"
  | .noArguments => "max expected at least 1 argument, got 0"
  | .noItems => "max() arg is an empty sequence"
  | .notIterable typeName => "'" ++ typeName ++ "' object is not iterable"
  | .noOrder first second =>
    "'>' not supported between instances of '" ++ first ++ "' and '" ++ second ++ "'"

namespace HostFunction

/-- The parameters of a function. The greatest of its arguments is taken without a check. -/
def signature? : HostFunction → Option Signature
  | .constant | .failing => some ⟨[], [], false, []⟩
  | .pair => some ⟨["a", "b"], [], false, []⟩
  | .optionalPair => some ⟨["a"], ["b"], false, []⟩
  | .collect => some ⟨[], [], true, []⟩
  | .keyed => some ⟨["a"], [], false, ["key"]⟩
  | .greatest => none

/-- The greatest of a value and further ones; of equal values the first. -/
def greatestOf (best : Value) : List Value → Except HostFailure Value
  | [] => .ok best
  | value :: values =>
    match value.exceeds best with
    | .ok true => greatestOf value values
    | .ok false => greatestOf best values
    | .error (first, second) => .error (.noOrder first.typeName second.typeName)

def itemsOf : Value → Except HostFailure (List Value)
  | .list items => .ok items
  | .string text => .ok (text.toList.map (fun c => .string (String.ofList [c])))
  | .dict entries => .ok (entries.map Prod.fst)
  | value => .error (.notIterable value.typeName)

def call : HostFunction → List Value → Except HostFailure Value
  | .constant, _ => .ok (.int 42)
  | .failing, _ => .error .always
  | .optionalPair, [a] => .ok (.list [a, .nil])
  | .pair, arguments | .optionalPair, arguments | .collect, arguments
  | .keyed, arguments => .ok (.list arguments)
  | .greatest, [] => .error .noArguments
  | .greatest, [value] => do
    match ← itemsOf value with
    | [] => .error .noItems
    | first :: rest => greatestOf first rest
  | .greatest, first :: rest => greatestOf first rest

end HostFunction

end ModuleLoader
