import ModuleLoader.Script.Literal

/-!
# Programs

A program is a sequence of statements. Expressions are built over the type of their literals,
which is `Spelling` before the literals are evaluated and `Literal` after.

* `Expression`, `Statement`, `Program` : the trees, each construct with its extent;
* `Expression.evaluateLiterals`, `Statement.evaluateLiterals` : the tree with literals evaluated
  in the order in which they are written.
-/

namespace ModuleLoader.Script

/-- An expression whose literals are of type `α`. -/
inductive Expression (α : Type) where
  | literal (value : α) (span : Span)
  | symbol (name : String) (span : Span)
  | array (items : List (Expression α)) (span : Span)
  | reference (name : String) (span : Span)
  | call (name : String) (arguments : List (Expression α)) (span : Span)
  deriving Repr

def Expression.span {α : Type} : Expression α → Span
  | .literal _ span | .symbol _ span | .array _ span | .reference _ span | .call _ _ span => span

/-- A statement: an expression, or one whose value is bound to a name. -/
inductive Statement (α : Type) where
  | evaluate (expression : Expression α)
  | assign (name : String) (value : Expression α) (span : Span)
  deriving Repr

/-- The extent of a statement; a semicolon behind it does not belong to it. -/
def Statement.span {α : Type} : Statement α → Span
  | .evaluate expression => expression.span
  | .assign _ _ span => span

/-- A program read from a file. Its extent runs from the first token to the last. -/
structure Program where
  file : String
  statements : List (Statement Literal)
  span : Option Span
  deriving Repr

mutual
def Expression.evaluateLiterals (names : CharacterNames) :
    Expression Spelling → Except LiteralFault (Expression Literal)
  | .literal spelling span => (.literal · span) <$> spelling.evaluate names
  | .symbol name span => .ok (.symbol name span)
  | .array items span => (.array · span) <$> evaluateLiteralsOf names items
  | .reference name span => .ok (.reference name span)
  | .call name arguments span => (.call name · span) <$> evaluateLiteralsOf names arguments

def evaluateLiteralsOf (names : CharacterNames) :
    List (Expression Spelling) → Except LiteralFault (List (Expression Literal))
  | [] => .ok []
  | item :: items => do
    let first ← item.evaluateLiterals names
    let others ← evaluateLiteralsOf names items
    return first :: others
end

def Statement.evaluateLiterals (names : CharacterNames) :
    Statement Spelling → Except LiteralFault (Statement Literal)
  | .evaluate expression => .evaluate <$> expression.evaluateLiterals names
  | .assign name value span => (.assign name · span) <$> value.evaluateLiterals names

end ModuleLoader.Script
