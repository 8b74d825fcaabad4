import ModuleLoader.Value.Quantity

/-!
# Equality and order of values

Numbers are equal by quantity, whatever their kind. Lists are equal place by place, dictionaries
entry by entry in any order, and compiled scripts when they have the same path and programs that
differ at most in layout. A value is always equal to itself, also one that is no number; host
functions are equal to themselves alone.

Numbers are ordered by quantity, texts by the codes of their characters, and lists by the first
place at which they differ, or else by length. Other values have no order, and two lists have none
when the values at that place have none.

* `Literal.agrees`, `Expression.agrees`, `Statement.agrees`, `Program.agrees` : equality of
  programs up to the extents of their parts;
* `Value.agrees`, `Value.allAgree`, `Value.entriesAgree` : equality of values;
* `Value.ofEntries` : the dictionary that entries make up one after another;
* `Value.exceeds`, `Value.listExceeds` : the first value is the greater one, or the two values
  without an order on which this depends.
-/

namespace ModuleLoader

namespace Script

def Literal.agrees (first second : Literal) : Bool :=
  match (Value.ofLiteral first).quantity?, (Value.ofLiteral second).quantity? with
  | some a, some b => a.agrees b
  | _, _ => first == second

mutual
def Expression.agrees : Expression Literal → Expression Literal → Bool
  | .literal value _, .literal other _ => value.agrees other
  | .symbol name _, .symbol other _ => name == other
  | .array items _, .array others _ => allExpressionsAgree items others
  | .reference name _, .reference other _ => name == other
  | .call name arguments _, .call other others _ =>
    name == other && allExpressionsAgree arguments others
  | _, _ => false

def allExpressionsAgree : List (Expression Literal) → List (Expression Literal) → Bool
  | [], [] => true
  | item :: items, other :: others => item.agrees other && allExpressionsAgree items others
  | _, _ => false
end

def Statement.agrees : Statement Literal → Statement Literal → Bool
  | .evaluate expression, .evaluate other => expression.agrees other
  | .assign name value _, .assign other bound _ => name == other && value.agrees bound
  | _, _ => false

/-- The programs come from one file and differ at most in their extents. -/
def Program.agrees (first second : Program) : Bool :=
  first.file == second.file && first.statements.length == second.statements.length &&
    (first.statements.zip second.statements).all (fun pair => pair.1.agrees pair.2)

end Script

namespace Value

mutual
def agrees : Value → Value → Bool
  | .nil, .nil => true
  | .string s, .string t => s == t
  | .symbol s, .symbol t => s.same t
  | .list items, .list others => allAgree items others
  | .dict entries, .dict others =>
    entries.length == others.length && entriesAgree entries others
  | .library first, .library second => first == second
  | .script first, .script second =>
    first.path == second.path && first.program.agrees second.program
  | .host f label, .host g other => f == g && (f == .greatest || label == other)
  | .float x, .float y => x == y || (Quantity.ofBinary64 x).agrees (.ofBinary64 y)
  | first, second =>
    match first.quantity?, second.quantity? with
    | some a, some b => a.agrees b
    | _, _ => false

def allAgree : List Value → List Value → Bool
  | [], [] => true
  | item :: items, other :: others => agrees item other && allAgree items others
  | _, _ => false

/-- Each of the first entries has its equal among the second ones. -/
def entriesAgree : List (Value × Value) → List (Value × Value) → Bool
  | [], _ => true
  | (key, value) :: entries, others =>
    others.any (fun other => agrees key other.1 && agrees value other.2) &&
      entriesAgree entries others
end

/-- The entries with a value put under a key. A key that is there keeps its place and spelling. -/
def putEntry (key value : Value) : List (Value × Value) → List (Value × Value)
  | [] => [(key, value)]
  | (other, old) :: entries =>
    if other.agrees key then (other, value) :: entries
    else (other, old) :: putEntry key value entries

def ofEntries (entries : List (Value × Value)) : Value :=
  .dict (entries.foldl (fun known entry => putEntry entry.1 entry.2 known) [])

mutual
/-- The first value is the greater one. An error names the values that have no order. -/
def exceeds : Value → Value → Except (Value × Value) Bool
  | .string s, .string t => .ok (decide (t < s))
  | .list items, .list others => listExceeds items others
  | first, second =>
    match first.quantity?, second.quantity? with
    | some a, some b => .ok (a.exceeds b)
    | _, _ => .error (first, second)

/-- The first list is the greater one at the first difference. -/
def listExceeds : List Value → List Value → Except (Value × Value) Bool
  | [], _ => .ok false
  | _ :: _, [] => .ok true
  | item :: items, other :: others =>
    if item.agrees other then listExceeds items others else exceeds item other
end

end Value

end ModuleLoader
