import ModuleLoader.Script.Lexeme

/-!
# The tokens of a source

* `isBlank`, `skipTrivia` : blanks and comments, which stand between tokens;
* `Tokens`, `Tokens.scan`, `Tokens.ofText` : the tokens of a source in order, up to the first
  character that begins none.
-/

namespace ModuleLoader.Script

def isBlank (c : Char) : Bool := c == ' ' || c == '\t' || c == '\x0c' || c == '\r' || c == '\n'

/-- The text behind leading blanks and comments, and where it begins. A comment runs from two
slashes to the end of the line. -/
def skipTrivia : (inComment : Bool) → Position → List Char → Position × List Char
  | _, p, [] => (p, [])
  | true, p, c :: rest => skipTrivia (c != '\n') (p.next c) rest
  | false, p, c :: rest =>
    if isBlank c then skipTrivia false (p.next c) rest
    else if c = '/' ∧ rest.head? = some '/' then skipTrivia true (p.next c) rest
    else (p, c :: rest)

theorem skipTrivia_length_le (inComment : Bool) (p : Position) (text : List Char) :
    (skipTrivia inComment p text).2.length ≤ text.length := by
  fun_induction skipTrivia inComment p text <;> simp_all <;> omega

/-- The tokens of a source, and the first character that begins none, if there is one. -/
structure Tokens where
  tokens : List Token
  stray : Option (Char × Position)
  deriving DecidableEq, Repr

def Tokens.cons (token : Token) (more : Tokens) : Tokens := ⟨token :: more.tokens, more.stray⟩

def Tokens.scan (afterQuote : Bool) (p : Position) (text : List Char) : Tokens :=
  match _ht : skipTrivia false p text with
  | (_, []) => ⟨[], none⟩
  | (start, c :: rest) =>
    match _hl : lexeme? afterQuote (c :: rest) with
    | none => ⟨[], some (c, start)⟩
    | some (lexeme, tail) =>
      let stop := start.after lexeme.text
      Tokens.cons ⟨lexeme, start, stop⟩ (Tokens.scan (lexeme == .quote) stop tail)
termination_by text.length
decreasing_by
  have h₁ := lexeme?_length_lt _hl
  have h₂ := skipTrivia_length_le false p text
  rw [_ht] at h₂
  simp only [List.length_cons] at h₁ h₂
  omega

def Tokens.ofText (source : List Char) : Tokens := Tokens.scan false .origin source

end ModuleLoader.Script
