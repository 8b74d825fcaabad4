/-!
# Positions in a source

Lines and columns count from one. A column counts characters, and only a line feed ends a line.

* `Position`, `Position.next`, `Position.after` : a place, and the place behind a text;
* `Span` : the places before the first and behind the last character of a construct;
* `Location` : a span in a named file, as diagnostics show it.
-/

namespace ModuleLoader.Script

/-- A place before a character. -/
structure Position where
  line : Nat
  column : Nat
  deriving DecidableEq, Repr, Inhabited

namespace Position

def origin : Position := ⟨1, 1⟩

def next (p : Position) (c : Char) : Position :=
  if c = '\n' then ⟨p.line + 1, 1⟩ else ⟨p.line, p.column + 1⟩

def after (p : Position) (text : List Char) : Position := text.foldl next p

@[simp] theorem after_nil (p : Position) : p.after [] = p := rfl

@[simp] theorem after_cons (p : Position) (c : Char) (text : List Char) :
    p.after (c :: text) = (p.next c).after text := rfl

@[simp] theorem after_append (p : Position) (s t : List Char) :
    p.after (s ++ t) = (p.after s).after t := by
  simp [after]

end Position

/-- The extent of a construct, its end excluded. -/
structure Span where
  start : Position
  stop : Position
  deriving DecidableEq, Repr, Inhabited

/-- A place in a file, with the end of the construct there or zeros. -/
structure Location where
  file : String
  line : Int
  column : Int
  endLine : Int := 0
  endColumn : Int := 0
  deriving DecidableEq, Repr

namespace Location

def ofSpan (file : String) (span : Span) : Location :=
  ⟨file, span.start.line, span.start.column, span.stop.line, span.stop.column⟩

def ofPosition (file : String) (p : Position) : Location := ⟨file, p.line, p.column, 0, 0⟩

def text (l : Location) : String :=
  l.file ++ ":" ++ toString l.line ++ ":" ++ toString l.column

end Location

end ModuleLoader.Script
