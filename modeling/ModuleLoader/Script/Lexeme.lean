import ModuleLoader.Script.Token

/-!
# The lexeme at the head of a text

* `afterString?` : a string reaches to the first quote that no backslash takes;
* `numberOf`, `nameOf` : the longest number and the longest name that a text begins with;
* `lexeme?` : the lexeme at the head of a text, and the text behind it;
* `lexeme?_append` : a lexeme is cut off the text; `lexeme?_length_lt` : it is not empty.
-/

namespace ModuleLoader.Script

/-- The characters up to the first quote that no backslash takes, and the text behind that
quote. A line feed ends the search. -/
def afterString? : List Char → Option (List Char × List Char)
  | [] => none
  | '"' :: rest => some ([], rest)
  | '\\' :: c :: rest =>
    if c = '\n' then none
    else (afterString? rest).map (fun found => ('\\' :: c :: found.1, found.2))
  | c :: rest =>
    if c = '\n' then none
    else (afterString? rest).map (fun found => (c :: found.1, found.2))

def digitsOf (text : List Char) : List Char := text.takeWhile Char.isDigit

def signOf : List Char → List Char
  | c :: _ => if c = '-' ∨ c = '+' then [c] else []
  | [] => []

/-- A sign, if there is one, and the digits behind it. -/
def signedDigitsOf (text : List Char) : List Char :=
  signOf text ++ digitsOf (text.drop (signOf text).length)

/-- The exponent that a text begins with, or nothing: a mark and digits that may have a sign. -/
def exponentOf : List Char → List Char
  | mark :: rest =>
    if (mark = 'e' ∨ mark = 'E') ∧ signedDigitsOf rest ≠ signOf rest then
      mark :: signedDigitsOf rest
    else []
  | [] => []

def fractionOf : List Char → List Char
  | '.' :: rest => '.' :: digitsOf rest
  | _ => []

/-- The digits that a text begins with and the point among or around them, or nothing. -/
def mantissaOf (text : List Char) : List Char :=
  let mantissa := digitsOf text ++ fractionOf (text.drop (digitsOf text).length)
  if mantissa = ['.'] then [] else mantissa

def unsignedNumberOf (text : List Char) : List Char :=
  let mantissa := mantissaOf text
  if mantissa = [] then [] else mantissa ++ exponentOf (text.drop mantissa.length)

def numberOf (text : List Char) : List Char :=
  let sign := signOf text
  let unsigned := unsignedNumberOf (text.drop sign.length)
  if unsigned = [] then [] else sign ++ unsigned

def isNameStart (c : Char) : Bool := c.isAlpha || c == '_'

def isNamePart (c : Char) : Bool := c.isAlphanum || c == '_'

def nameOf : List Char → List Char
  | c :: rest => if isNameStart c then c :: rest.takeWhile isNamePart else []
  | [] => []

/-- The lexeme that a name is: a keyword, unless it follows a quote. -/
def wordLexeme (afterQuote : Bool) (text : List Char) : Lexeme :=
  if afterQuote then .name text
  else
    match Keyword.ofText? text with
    | some word => .literal (.keyword word)
    | none => .name text

def wordOrNumber? (afterQuote : Bool) (text : List Char) : Option (Lexeme × List Char) :=
  if nameOf text ≠ [] then
    some (wordLexeme afterQuote (nameOf text), text.drop (nameOf text).length)
  else if numberOf text ≠ [] then
    some (.literal (.number (numberOf text)), text.drop (numberOf text).length)
  else none

/-- The lexeme at the head of a text, and the text behind it. -/
def lexeme? (afterQuote : Bool) : List Char → Option (Lexeme × List Char)
  | '"' :: rest => (afterString? rest).map (fun found => (.literal (.string found.1), found.2))
  | '(' :: rest => some (.openParen, rest)
  | ')' :: rest => some (.closeParen, rest)
  | '[' :: rest => some (.openBracket, rest)
  | ']' :: rest => some (.closeBracket, rest)
  | ',' :: rest => some (.comma, rest)
  | ';' :: rest => some (.semicolon, rest)
  | '\'' :: rest => some (.quote, rest)
  | ':' :: '=' :: rest => some (.assign, rest)
  | text => wordOrNumber? afterQuote text

/-! ## What is read is cut off the text -/

theorem afterString?_append {text body rest : List Char}
    (h : afterString? text = some (body, rest)) : text = body ++ '"' :: rest := by
  fun_induction afterString? text generalizing body rest with
  | case1 => simp at h
  | case2 tail => simp only [Option.some.injEq, Prod.mk.injEq] at h; simp [← h.1, ← h.2]
  | case3 => simp at h
  | case4 c tail _ ih =>
    obtain ⟨⟨b, r⟩, hb, heq⟩ := Option.map_eq_some_iff.1 h
    simp only [Prod.mk.injEq] at heq
    simp [← heq.1, ← heq.2, ih hb]
  | case5 => simp at h
  | case6 c tail _ _ _ ih =>
    obtain ⟨⟨b, r⟩, hb, heq⟩ := Option.map_eq_some_iff.1 h
    simp only [Prod.mk.injEq] at heq
    simp [← heq.1, ← heq.2, ih hb]

theorem prefix_append_drop {pre text : List Char} (h : pre <+: text) :
    pre ++ text.drop pre.length = text := by
  obtain ⟨t, rfl⟩ := h; simp

theorem append_isPrefix {a b text : List Char} (ha : a <+: text)
    (hb : b <+: text.drop a.length) : a ++ b <+: text := by
  obtain ⟨t, rfl⟩ := ha
  simpa using hb

theorem signOf_isPrefix (text : List Char) : signOf text <+: text := by
  unfold signOf
  split
  · split <;> simp
  · simp

theorem signedDigitsOf_isPrefix (text : List Char) : signedDigitsOf text <+: text :=
  append_isPrefix (signOf_isPrefix text) (List.takeWhile_prefix _)

theorem exponentOf_isPrefix (text : List Char) : exponentOf text <+: text := by
  unfold exponentOf
  split
  · split
    · simpa using signedDigitsOf_isPrefix _
    · simp
  · simp

theorem fractionOf_isPrefix (text : List Char) : fractionOf text <+: text := by
  unfold fractionOf
  split
  · simpa [digitsOf] using List.takeWhile_prefix _
  · simp

theorem mantissaOf_isPrefix (text : List Char) : mantissaOf text <+: text := by
  unfold mantissaOf
  dsimp only
  split
  · simp
  · exact append_isPrefix (List.takeWhile_prefix _) (fractionOf_isPrefix _)

theorem unsignedNumberOf_isPrefix (text : List Char) : unsignedNumberOf text <+: text := by
  unfold unsignedNumberOf
  dsimp only
  split
  · simp
  · exact append_isPrefix (mantissaOf_isPrefix _) (exponentOf_isPrefix _)

theorem numberOf_isPrefix (text : List Char) : numberOf text <+: text := by
  unfold numberOf
  dsimp only
  split
  · simp
  · exact append_isPrefix (signOf_isPrefix _) (unsignedNumberOf_isPrefix _)

theorem nameOf_isPrefix (text : List Char) : nameOf text <+: text := by
  unfold nameOf
  split
  · split
    · simpa using List.takeWhile_prefix _
    · simp
  · simp

@[simp] theorem wordLexeme_text (afterQuote : Bool) (text : List Char) :
    (wordLexeme afterQuote text).text = text := by
  unfold wordLexeme
  split
  · simp [Lexeme.text]
  · split
    · rename_i h; simpa [Lexeme.text, Spelling.text] using Keyword.text_of_ofText? h
    · simp [Lexeme.text]

theorem wordOrNumber?_append {afterQuote : Bool} {text rest : List Char} {lexeme : Lexeme}
    (h : wordOrNumber? afterQuote text = some (lexeme, rest)) :
    text = lexeme.text ++ rest ∧ lexeme.text ≠ [] := by
  unfold wordOrNumber? at h
  split at h
  · rename_i hne
    simp only [Option.some.injEq, Prod.mk.injEq] at h
    rw [← h.1, ← h.2, wordLexeme_text, prefix_append_drop (nameOf_isPrefix text)]
    exact ⟨rfl, hne⟩
  · split at h
    · rename_i hne
      simp only [Option.some.injEq, Prod.mk.injEq] at h
      rw [← h.1, ← h.2, Lexeme.text, Spelling.text, prefix_append_drop (numberOf_isPrefix text)]
      exact ⟨rfl, hne⟩
    · simp at h

/-- The lexeme is what was cut off the head of the text, and it is not empty. -/
theorem lexeme?_append {afterQuote : Bool} {text rest : List Char} {lexeme : Lexeme}
    (h : lexeme? afterQuote text = some (lexeme, rest)) :
    text = lexeme.text ++ rest ∧ lexeme.text ≠ [] := by
  unfold lexeme? at h
  split at h
  case h_1 tail =>
    obtain ⟨⟨body, t⟩, hb, heq⟩ := Option.map_eq_some_iff.1 h
    simp only [Prod.mk.injEq] at heq
    rw [afterString?_append hb, ← heq.1, ← heq.2]
    simp [Lexeme.text, Spelling.text]
  case h_10 => exact wordOrNumber?_append h
  all_goals
    simp only [Option.some.injEq, Prod.mk.injEq] at h
    simp [← h.1, h.2, Lexeme.text]

theorem lexeme?_length_lt {afterQuote : Bool} {text rest : List Char} {lexeme : Lexeme}
    (h : lexeme? afterQuote text = some (lexeme, rest)) : rest.length < text.length := by
  obtain ⟨happ, hne⟩ := lexeme?_append h
  have hpos := List.length_pos_iff.2 hne
  rw [happ, List.length_append]
  omega

end ModuleLoader.Script
