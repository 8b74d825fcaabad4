import ModuleLoader.Script.Program
import ModuleLoader.Script.Tokens

/-!
# Statements out of tokens

A program is `statement*`, where

* a statement is `name := expression` or `expression`, with an optional `;` behind it;
* an expression is a literal, `' name`, `name`, `name ( items )` or `[ items ]`;
* items are expressions with `,` between them, possibly none.

Tokens are taken one at a time. What has been read is kept as the statements completed, the
brackets still open and what may follow.

* `Frame`, `Context` : the open brackets with the items read in them, and the name that the
  statement binds;
* `Phase` : what may follow; `Assembly` : the completed statements and the phase;
* `Context.supply` : an expression is complete; `Context.begin?` : an expression begins;
* `Assembly.step?` : the effect of a token, or none if it may not stand here;
* `Assembly.finish?` : the statements, if the tokens may end here;
* `Assembly.run` : the effect of tokens up to the first that may not stand where it does.
-/

namespace ModuleLoader.Script

/-- An open bracket, where its construct begins, and the items read in it, last first. -/
inductive Frame where
  | call (name : String) (start : Position) (items : List (Expression Spelling))
  | array (start : Position) (items : List (Expression Spelling))

/-- Where an expression stands: the name that the statement binds and where that begins, and the
open brackets, innermost first. -/
structure Context where
  target : Option (String × Position)
  frames : List Frame

def Context.top : Context := ⟨none, []⟩

/-- What may follow the tokens read. -/
inductive Phase where
  /-- A statement. -/
  | ready
  /-- A semicolon or a statement. -/
  | closed
  /-- An expression. -/
  | operand (context : Context)
  /-- An expression or the closing bracket. -/
  | opened (context : Context)
  /-- A comma or the closing bracket. -/
  | item (context : Context)
  /-- What makes the name read a call or an assignment, or what may follow it as an expression. -/
  | named (context : Context) (name : String) (span : Span)
  /-- The name of a symbol whose quote was read. -/
  | quoted (context : Context) (start : Position)

/-- The statements completed, last first, and what may follow. -/
structure Assembly where
  statements : List (Statement Spelling)
  phase : Phase

namespace Assembly

def start : Assembly := ⟨[], .ready⟩

def enter (a : Assembly) (phase : Phase) : Assembly := ⟨a.statements, phase⟩

/-- An expression is complete: it is the next item of the innermost bracket or it completes the
statement. -/
def supply (a : Assembly) (context : Context) (e : Expression Spelling) : Assembly :=
  match context.frames, context.target with
  | .call name start items :: frames, target =>
    a.enter (.item ⟨target, .call name start (e :: items) :: frames⟩)
  | .array start items :: frames, target =>
    a.enter (.item ⟨target, .array start (e :: items) :: frames⟩)
  | [], some (name, start) =>
    ⟨.assign name e ⟨start, e.span.stop⟩ :: a.statements, .closed⟩
  | [], none => ⟨.evaluate e :: a.statements, .closed⟩

def begin? (a : Assembly) (context : Context) (token : Token) : Option Assembly :=
  match token.lexeme with
  | .literal spelling => some (a.supply context (.literal spelling token.span))
  | .name text => some (a.enter (.named context (String.ofList text) token.span))
  | .quote => some (a.enter (.quoted context token.span.start))
  | .openBracket =>
    some (a.enter (.opened ⟨context.target, .array token.span.start [] :: context.frames⟩))
  | _ => none

def close? (a : Assembly) (context : Context) (token : Token) : Option Assembly :=
  match token.lexeme, context.frames with
  | .closeParen, .call name start items :: frames =>
    some (a.supply ⟨context.target, frames⟩
      (.call name items.reverse ⟨start, token.span.stop⟩))
  | .closeBracket, .array start items :: frames =>
    some (a.supply ⟨context.target, frames⟩ (.array items.reverse ⟨start, token.span.stop⟩))
  | _, _ => none

/-- A name with nothing behind it that would make it more is a reference. -/
def settle (a : Assembly) : Assembly :=
  match a.phase with
  | .named context name span => a.supply context (.reference name span)
  | _ => a

def stepSettled? (a : Assembly) (token : Token) : Option Assembly :=
  match a.phase with
  | .ready => a.begin? .top token
  | .closed =>
    if token.lexeme = .semicolon then some (a.enter .ready) else a.begin? .top token
  | .operand context => a.begin? context token
  | .opened context => a.close? context token <|> a.begin? context token
  | .item context =>
    if token.lexeme = .comma then some (a.enter (.operand context))
    else a.close? context token
  | .quoted context start =>
    match token.lexeme with
    | .name text =>
      some (a.supply context (.symbol (String.ofList text) ⟨start, token.span.stop⟩))
    | _ => none
  | .named _ _ _ => none

/-- The name and the token make a call or an assignment; only a statement can be an
assignment. -/
def extendName? (a : Assembly) (context : Context) (name : String) (span : Span)
    (token : Token) : Option Assembly :=
  match token.lexeme, context with
  | .openParen, _ =>
    some (a.enter (.opened ⟨context.target, .call name span.start [] :: context.frames⟩))
  | .assign, ⟨none, []⟩ => some (a.enter (.operand ⟨some (name, span.start), []⟩))
  | _, _ => none

/-- The effect of a token, or none if it may not stand here. -/
def step? (a : Assembly) (token : Token) : Option Assembly :=
  match a.phase with
  | .named context name span =>
    a.extendName? context name span token <|> a.settle.stepSettled? token
  | _ => a.stepSettled? token

/-- The statements in order, if the tokens may end here. -/
def finish? (a : Assembly) : Option (List (Statement Spelling)) :=
  match a.settle.phase with
  | .ready | .closed => some a.settle.statements.reverse
  | _ => none

def run (a : Assembly) : List Token → Except Token Assembly
  | [] => .ok a
  | token :: tokens =>
    match a.step? token with
    | some next => next.run tokens
    | none => .error token

theorem run_append (a : Assembly) (s t : List Token) :
    a.run (s ++ t) = (a.run s).bind (fun next => next.run t) := by
  induction s generalizing a with
  | nil => rfl
  | cons token s ih =>
    simp only [List.cons_append, run]
    cases a.step? token with
    | none => rfl
    | some next => exact ih next

end Assembly

end ModuleLoader.Script
