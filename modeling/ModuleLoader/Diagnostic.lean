import ModuleLoader.Script.Position
import ModuleLoader.Text.Split

/-!
# Diagnostics

A message about a place in a script, with the line it stands on and a mark under the place. The
layout is made of styled pieces, and colour decides only how a piece is written.

* `Style`, `Piece` : a stretch of text and its styles;
* `Diagnostic` : the message with its code, place and source;
* `Diagnostic.header`, `pointer`, `excerpt` : the parts of the layout;
* `Diagnostic.render` : the text;
* `usesColor` : whether the environment asks for colour.
-/

namespace ModuleLoader

/-- How a piece is shown on a terminal. -/
inductive Style where
  | bold
  | red
  | blue
  deriving DecidableEq, Repr

def controlSequence (parameter : List Char) : List Char := '\x1b' :: '[' :: parameter ++ ['m']

def Style.sequence : Style → List Char
  | .bold => controlSequence ['1']
  | .red => controlSequence ['3', '1']
  | .blue => controlSequence ['3', '4']

structure Piece where
  styles : List Style
  text : List Char
  deriving DecidableEq, Repr

/-- The text of a piece, between control sequences if it is coloured and has a style. -/
def Piece.render (color : Bool) (piece : Piece) : List Char :=
  if color && !piece.styles.isEmpty then
    piece.styles.flatMap Style.sequence ++ piece.text ++ controlSequence ['0']
  else piece.text

def renderLine (color : Bool) (line : List Piece) : List Char :=
  line.flatMap (Piece.render color)

structure Diagnostic where
  message : String
  location : Option Script.Location
  source : Option String := none
  code : Option String := none
  deriving DecidableEq, Repr

namespace Diagnostic

/-- The code in brackets; an empty code counts as none. -/
def codeText (code : Option String) : List Char :=
  match code with
  | some text => if text.isEmpty then [] else '[' :: text.toList ++ [']']
  | none => []

def header (d : Diagnostic) : List Piece :=
  [⟨[.bold, .red], "error".toList ++ codeText d.code⟩, ⟨[.bold], ':' :: ' ' :: d.message.toList⟩]

def blanks (count : Nat) : List Char := List.replicate count ' '

def lineNumber (location : Script.Location) : List Char := (toString location.line).toList

def pointer (location : Script.Location) : List Piece :=
  [⟨[.bold, .blue], blanks (lineNumber location).length ++ "--> ".toList⟩,
    ⟨[], location.text.toList⟩]

def sourceLine? (source : Option String) (line : Int) : Option (List Char) :=
  if line < 1 then none
  else source.bind (fun text => (Text.split ['\n'] text.toList)[(line - 1).toNat]?)

/-- How many columns are marked: up to the end of the construct when that is on the same line,
else one. -/
def markWidth (location : Script.Location) : Nat :=
  if location.endLine = location.line ∧ location.column < location.endColumn then
    (location.endColumn - location.column).toNat
  else 1

def mark (location : Script.Location) : List Char :=
  blanks (location.column - 1).toNat ++ List.replicate (markWidth location) '^'

/-- The lines that show the source line, behind a gutter as wide as its number. -/
def excerpt (location : Script.Location) (sourceLine : List Char) : List (List Piece) :=
  let number := lineNumber location
  let margin := blanks (number.length + 1)
  [[⟨[.bold, .blue], margin ++ ['|']⟩],
    [⟨[.bold, .blue], number ++ " | ".toList⟩, ⟨[], sourceLine⟩],
    [⟨[.bold, .blue], margin ++ "| ".toList⟩, ⟨[.bold, .red], mark location⟩]]

def lines (d : Diagnostic) : List (List Piece) :=
  match d.location with
  | none => [d.header, [⟨[.bold, .blue], " --> ".toList⟩, ⟨[], "<unknown location>".toList⟩]]
  | some location =>
    match sourceLine? d.source location.line with
    | none => [d.header, pointer location]
    | some sourceLine => d.header :: pointer location :: excerpt location sourceLine

def render (color : Bool) (d : Diagnostic) : String :=
  String.ofList (Text.join ['\n'] (d.lines.map (renderLine color)))

end Diagnostic

def isSet (environment : List (String × String)) (name : String) : Bool :=
  match environment.lookup name with
  | some text => !text.isEmpty
  | none => false

/-- Diagnostics are coloured unless the environment objects. -/
def usesColor (environment : List (String × String)) : Bool :=
  let answer := ((environment.lookup "LOADPATH_COLOR").getD "").map Char.toLower
  !isSet environment "NO_COLOR" && !(["0", "false", "no", "never"].contains answer)

end ModuleLoader
