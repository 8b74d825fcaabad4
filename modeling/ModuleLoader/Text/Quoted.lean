import ModuleLoader.Text.Printable

/-!
# Quoted text

A text as it is shown inside a message or a list: between quotes, with the characters that would
not be seen written as escapes.

* `Quoted.delimiter` : single quotes, unless the text holds one and no double quote;
* `Quoted.escape` : how one character is written between them;
* `quoted` : the quoted text.
-/

namespace ModuleLoader.Text

namespace Quoted

def hexDigit (n : Nat) : Char :=
  if n < 10 then Char.ofNat (48 + n) else Char.ofNat (87 + n)

def hex : (width : Nat) → Nat → List Char
  | 0, _ => []
  | width + 1, n => hex width (n / 16) ++ [hexDigit (n % 16)]

/-- The quote that encloses a text. -/
def delimiter (text : List Char) : Char :=
  if text.contains '\'' && !text.contains '"' then '"' else '\''

/-- A hidden character, by the shortest of the three numeric escapes that holds its code. -/
def numericEscape (c : Char) : List Char :=
  if c.toNat < 0x100 then '\\' :: 'x' :: hex 2 c.toNat
  else if c.toNat < 0x10000 then '\\' :: 'u' :: hex 4 c.toNat
  else '\\' :: 'U' :: hex 8 c.toNat

def escape (quote c : Char) : List Char :=
  if c = quote ∨ c = '\\' then ['\\', c]
  else if c = '\n' then ['\\', 'n']
  else if c = '\r' then ['\\', 'r']
  else if c = '\t' then ['\\', 't']
  else if isPrintable c then [c]
  else numericEscape c

def chars (text : List Char) : List Char :=
  let quote := delimiter text
  quote :: text.flatMap (escape quote) ++ [quote]

end Quoted

def quoted (text : String) : String := String.ofList (Quoted.chars text.toList)

end ModuleLoader.Text
