import ModuleLoader.Script.Position

/-!
# Tokens

* `Keyword` : the names that stand for values;
* `Spelling` : how a literal is written;
* `Lexeme`, `Lexeme.text` : what a token is, and the characters it is written with;
* `Token` : a lexeme and its extent.
-/

namespace ModuleLoader.Script

inductive Keyword where
  | nil
  | true
  | false
  deriving DecidableEq, Repr

def Keyword.text : Keyword → List Char
  | .nil => ['n', 'i', 'l']
  | .true => ['t', 'r', 'u', 'e']
  | .false => ['f', 'a', 'l', 's', 'e']

def Keyword.ofText? (text : List Char) : Option Keyword :=
  [Keyword.nil, .true, .false].find? (·.text == text)

theorem Keyword.text_of_ofText? {text : List Char} {word : Keyword}
    (h : Keyword.ofText? text = some word) : word.text = text := by
  simpa using List.find?_some h

/-- How a literal is written. A string holds the characters between its quotes. -/
inductive Spelling where
  | string (body : List Char)
  | number (text : List Char)
  | keyword (word : Keyword)
  deriving DecidableEq, Repr

def Spelling.text : Spelling → List Char
  | .string body => '"' :: body ++ ['"']
  | .number text => text
  | .keyword word => word.text

inductive Lexeme where
  | literal (spelling : Spelling)
  | name (text : List Char)
  | assign
  | openParen
  | closeParen
  | openBracket
  | closeBracket
  | comma
  | semicolon
  | quote
  deriving DecidableEq, Repr

def Lexeme.text : Lexeme → List Char
  | .literal spelling => spelling.text
  | .name text => text
  | .assign => [':', '=']
  | .openParen => ['(']
  | .closeParen => [')']
  | .openBracket => ['[']
  | .closeBracket => [']']
  | .comma => [',']
  | .semicolon => [';']
  | .quote => ['\'']

/-- A lexeme and where it stands. -/
structure Token where
  lexeme : Lexeme
  span : Span
  deriving DecidableEq, Repr

end ModuleLoader.Script
