import ModuleLoader.Decimal.Binary64
import ModuleLoader.Script.Token

/-!
# The values of literals

* `CodePoint`, `BrokenText` : what strings are made of, and those that are no text;
* `CharacterNames` : the characters that have names, which are left to whoever reads a program;
* `Literal` : the values that a program can write down;
* `EscapeFlaw`, `EscapeFault`, `LiteralFault` : why a literal has no value, with the wording;
* `hexValue`, `unescape` : the code points that the text between quotes stands for;
* `lastLine` : the line on which a string ends, or the line end that breaks it;
* `evaluateString`, `evaluateNumber`, `Spelling.evaluate` : the value of a literal.

A program can write down strings that are no text, since an escape can stand for a surrogate. They
are literals of their own kind, and no script gets to work with them.

The offsets in a fault count the text between the quotes with every character beyond ASCII in its
eight-digit escape, which is ten characters long; a backslash before such a character is counted
in its four-digit escape.
-/

namespace ModuleLoader.Script

open Decimal (Binary64)

/-- A character, or a surrogate, which by itself is no character. -/
inductive CodePoint where
  | character (c : Char)
  | surrogate (code : Nat) (range : 0xD800 ≤ code ∧ code ≤ 0xDFFF)
  deriving DecidableEq, Repr

namespace CodePoint

/-- The code point of a number, unless that is too great. -/
def ofNat? (n : Nat) : Option CodePoint :=
  if n.isValidChar then some (.character (Char.ofNat n))
  else if range : 0xD800 ≤ n ∧ n ≤ 0xDFFF then some (.surrogate n range)
  else none

def character? : CodePoint → Option Char
  | .character c => some c
  | .surrogate _ _ => none

/-- The character that stands for the code point where only characters can be shown. -/
def shown : CodePoint → Char
  | .character c => c
  | .surrogate _ _ => '\uFFFD'

end CodePoint

/-- A string that is no text, because a surrogate is among its code points. -/
structure BrokenText where
  points : List CodePoint
  broken : points.mapM CodePoint.character? = none
  deriving DecidableEq, Repr

/-- The character that a name stands for, if it has one. The name is that between the braces of an
escape, as it is written there. -/
abbrev CharacterNames := List Char → Option Char

/-- The values that a program can write down. -/
inductive Literal where
  | nil
  | bool (value : Bool)
  | int (value : Int)
  | float (value : Binary64)
  | string (value : String)
  | broken (value : BrokenText)
  deriving DecidableEq, Repr

def Literal.ofCodePoints (points : List CodePoint) : Literal :=
  match broken : points.mapM CodePoint.character? with
  | some text => .string (String.ofList text)
  | none => .broken ⟨points, broken⟩

inductive EscapeFlaw where
  | truncatedX
  | truncatedU
  | truncatedLongU
  | illegalCharacter
  | malformedName
  | unknownName
  deriving DecidableEq, Repr

def EscapeFlaw.message : EscapeFlaw → String
  | .truncatedX => "truncated \\xXX escape"
  | .truncatedU => "truncated \\uXXXX escape"
  | .truncatedLongU => "truncated \\UXXXXXXXX escape"
  | .illegalCharacter => "illegal Unicode character"
  | .malformedName => "malformed \\N character escape"
  | .unknownName => "unknown Unicode character name"

/-- A broken escape, from its backslash to the last character read of it. -/
structure EscapeFault where
  flaw : EscapeFlaw
  first : Nat
  last : Nat
  deriving DecidableEq, Repr

inductive LiteralFault where
  /-- An integer of more digits than are read. -/
  | tooManyDigits (count : Nat)
  /-- A string that holds a NUL. -/
  | nul
  /-- A string that holds a line end, on the given line of the string. -/
  | unterminated (line : Nat)
  /-- A string with a broken escape; the string ends on the given line. -/
  | escape (fault : EscapeFault) (line : Nat)
  deriving DecidableEq, Repr

/-- The most digits of an integer. -/
def digitLimit : Nat := 4300

def EscapeFault.message (fault : EscapeFault) : String :=
  let place :=
    if fault.first = fault.last then "byte 0x5c in position " ++ toString fault.first
    else "bytes in position " ++ toString fault.first ++ "-" ++ toString fault.last
  "(unicode error) 'unicodeescape' codec can't decode " ++ place ++ ": " ++ fault.flaw.message

def LiteralFault.message : LiteralFault → String
  | .tooManyDigits count =>
    "Exceeds the limit (" ++ toString digitLimit ++
      " digits) for integer string conversion: value has " ++ toString count ++
      " digits; use sys.set_int_max_str_digits() to increase the limit"
  | .nul => "source code string cannot contain null bytes"
  | .unterminated line =>
    "unterminated string literal (detected at line " ++ toString line ++
      ") (<unknown>, line 1)"
  | .escape fault line =>
    fault.message ++ " (<unknown>, line " ++ toString line ++ ")"

/-! ## Strings -/

def isAscii (c : Char) : Bool := c.toNat < 128

def escapedWidth : List Char → Nat
  | [] => 0
  | '\\' :: c :: rest => (if isAscii c then 2 else 16) + escapedWidth rest
  | c :: rest => (if isAscii c then 1 else 10) + escapedWidth rest

def hexDigit? (c : Char) : Option Nat :=
  if '0' ≤ c ∧ c ≤ '9' then some (c.toNat - 48)
  else if 'a' ≤ c ∧ c ≤ 'f' then some (c.toNat - 87)
  else if 'A' ≤ c ∧ c ≤ 'F' then some (c.toNat - 55)
  else none

def hexValue (digits : List Char) : Nat :=
  digits.foldl (fun n c => 16 * n + (hexDigit? c).getD 0) 0

def octalValue (digits : List Char) : Nat :=
  digits.foldl (fun n c => 8 * n + (c.toNat - 48)) 0

def isOctalDigit (c : Char) : Bool := '0' ≤ c && c ≤ '7'

/-- The character that a backslash and a letter stand for. -/
def simpleEscape? (c : Char) : Option Char :=
  [('\\', '\\'), ('\'', '\''), ('"', '"'), ('a', '\x07'), ('b', '\x08'), ('f', '\x0c'),
    ('n', '\n'), ('r', '\r'), ('t', '\t'), ('v', '\x0b')].lookup c

/-- How many hexadecimal digits an escape letter asks for, and what it lacks without them. -/
def hexEscape? (c : Char) : Option (Nat × EscapeFlaw) :=
  [('x', (2, EscapeFlaw.truncatedX)), ('u', (4, .truncatedU)), ('U', (8, .truncatedLongU))].lookup c

/-- The code point that the first `count` digits of a text stand for. -/
def hexCodePoint (offset count : Nat) (truncated : EscapeFlaw) (text : List Char) :
    Except EscapeFault CodePoint :=
  let digits := (text.take count).takeWhile (fun c => (hexDigit? c).isSome)
  if digits.length < count then .error ⟨truncated, offset, offset + 1 + digits.length⟩
  else
    match CodePoint.ofNat? (hexValue digits) with
    | some point => .ok point
    | none => .error ⟨.illegalCharacter, offset, offset + 1 + count⟩

/-- The name in braces that a text begins with, and the character that it stands for. -/
def namedCharacter (names : CharacterNames) (offset : Nat) (text : List Char) :
    Except EscapeFault (List Char × Char) :=
  match text with
  | '{' :: rest =>
    let name := rest.takeWhile (· != '}')
    let width := escapedWidth name
    if name.length = rest.length then .error ⟨.malformedName, offset, offset + 2 + width⟩
    else if name.isEmpty then .error ⟨.malformedName, offset, offset + 2⟩
    else
      match names name with
      | some c => .ok (name, c)
      | none => .error ⟨.unknownName, offset, offset + 3 + width⟩
  | _ => .error ⟨.malformedName, offset, offset + 1⟩

/-- The code points that a text stands for whose first `skip` characters were read already. An
unknown escape stays as it is, and one of a line end vanishes. -/
def unescape (names : CharacterNames) (offset : Nat) :
    (skip : Nat) → List Char → Except EscapeFault (List CodePoint)
  | _, [] => .ok []
  | skip + 1, _ :: rest => unescape names offset skip rest
  | 0, ['\\'] => .ok [.character '\\']
  | 0, '\\' :: c :: rest =>
    match simpleEscape? c, hexEscape? c with
    | some plain, _ => (.character plain :: ·) <$> unescape names (offset + 2) 0 rest
    | none, some (count, truncated) => do
      let point ← hexCodePoint offset count truncated rest
      (point :: ·) <$> unescape names (offset + 2 + count) count rest
    | none, none =>
      if c = '\r' then unescape names (offset + 2) 0 rest
      else if c = 'N' then do
        let (name, named) ← namedCharacter names offset rest
        (.character named :: ·) <$>
          unescape names (offset + 4 + escapedWidth name) (name.length + 2) rest
      else if isOctalDigit c then
        let digits := c :: (rest.take 2).takeWhile isOctalDigit
        (.character (Char.ofNat (octalValue digits)) :: ·) <$>
          unescape names (offset + 1 + digits.length) (digits.length - 1) rest
      else (fun more => .character '\\' :: .character c :: more) <$>
        unescape names (offset + escapedWidth ['\\', c]) 0 rest
  | 0, c :: rest => (.character c :: ·) <$> unescape names (offset + escapedWidth [c]) 0 rest

/-- The line on which a text ends. Behind a backslash a line end goes on with the next line; the
first one without it is an error on the line that it ends. -/
def lastLine (line : Nat) : List Char → Except Nat Nat
  | [] => .ok line
  | '\\' :: c :: rest => lastLine (if c = '\r' then line + 1 else line) rest
  | c :: rest => if c = '\r' then .error line else lastLine line rest

def evaluateString (names : CharacterNames) (body : List Char) :
    Except LiteralFault (List CodePoint) :=
  if body.contains '\x00' then .error .nul
  else
    match lastLine 1 body with
    | .error line => .error (.unterminated line)
    | .ok line => (unescape names 0 0 body).mapError (fun fault => .escape fault line)

/-! ## Numbers -/

def decimalValue (digits : List Char) : Nat :=
  digits.foldl (fun n c => 10 * n + (c.toNat - 48)) 0

/-- The value of a number: a point or an exponent makes it a floating-point number. -/
def evaluateNumber (text : List Char) : Except LiteralFault Literal :=
  if text.any (fun c => c == '.' || c == 'e' || c == 'E') then
    .ok (.float ((Binary64.ofText? text).getD (Binary64.zero false)))
  else
    let digits := text.filter Char.isDigit
    if digitLimit < digits.length then .error (.tooManyDigits digits.length)
    else
      let value : Int := decimalValue digits
      .ok (.int (if text.head? = some '-' then -value else value))

def Spelling.evaluate (names : CharacterNames) : Spelling → Except LiteralFault Literal
  | .string body => Literal.ofCodePoints <$> evaluateString names body
  | .number text => evaluateNumber text
  | .keyword .nil => .ok .nil
  | .keyword .true => .ok (.bool true)
  | .keyword .false => .ok (.bool false)

end ModuleLoader.Script
