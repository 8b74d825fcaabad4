import ModuleLoader.Script.Assembly
import ModuleLoader.Text.Quoted

/-!
# Parsing

A source is cut into tokens, the tokens make statements and the literals are evaluated. The first
character or token that cannot stand where it does is reported, and only in a program that has
none the first literal without a value.

* `SourceFault` : why a source is no program;
* `assemble` : the statements that the tokens make;
* `parse` : the program.
-/

namespace ModuleLoader.Script

inductive SourceFault where
  /-- No token begins with this character. -/
  | unexpectedCharacter (c : Char) (position : Position)
  /-- The token may not stand here. -/
  | unexpectedToken (text : List Char) (position : Position)
  /-- The source ends inside a statement, whose last token begins at the position. -/
  | unexpectedEnd (position : Position)
  /-- A literal has no value. -/
  | literal (fault : LiteralFault)
  deriving DecidableEq, Repr

def SourceFault.message : SourceFault → String
  | .unexpectedCharacter c _ => "unexpected character " ++ Text.quoted (String.ofList [c])
  | .unexpectedToken text _ => "unexpected token " ++ Text.quoted (String.ofList text)
  | .unexpectedEnd _ => "unexpected end of input"
  | .literal fault => "invalid literal: " ++ fault.message

/-- The place that a source fault points to. -/
def SourceFault.position? : SourceFault → Option Position
  | .unexpectedCharacter _ position => some position
  | .unexpectedToken _ position => some position
  | .unexpectedEnd position => some position
  | .literal _ => none

def assemble (tokens : Tokens) : Except SourceFault (List (Statement Spelling)) :=
  match Assembly.start.run tokens.tokens with
  | .error token => .error (.unexpectedToken token.lexeme.text token.span.start)
  | .ok assembly =>
    match tokens.stray, assembly.finish? with
    | some (c, position), _ => .error (.unexpectedCharacter c position)
    | none, some statements => .ok statements
    | none, none =>
      let last := (tokens.tokens.getLast?.map (·.span.start)).getD .origin
      .error (.unexpectedEnd last)

/-- From the beginning of the first token to the end of the last. -/
def extent (tokens : List Token) : Option Span := do
  let first ← tokens.head?
  let last ← tokens.getLast?
  return ⟨first.span.start, last.span.stop⟩

/-- The program that a source is. -/
def parse (names : CharacterNames) (file : String) (source : List Char) :
    Except SourceFault Program := do
  let tokens := Tokens.ofText source
  let written ← assemble tokens
  let statements ←
    (written.mapM (Statement.evaluateLiterals names)).mapError SourceFault.literal
  return ⟨file, statements, extent tokens.tokens⟩

end ModuleLoader.Script
