import ModuleLoader.Proofs.Scanning

/-!
# Derivations of the grammar

Programs are written by these rules, in which a literal is a string, a number or one of `nil`,
`true` and `false`:

    program:     statement*
    statement:   (assignment | expression) ";"?
    assignment:  NAME ":=" expression
    expression:  NAME "(" items? ")" | LITERAL | "'" NAME | "[" items? "]" | NAME
    items:       expression ("," expression)*

* `Derivation` : a derivation of a program, with one type for each rule, one constructor for each
  of its alternatives, and the place of every token;
* `Derivation.tokens` : the tokens derived;
* `Derivation.statements` : the statements that the derivation stands for;
* `Derivation.tokens_injective` : no tokens have two derivations;
* `Derivation.Expr.extent_tokens` : a construct reaches from its first token to its last;
* `Derivation.relocate` : the same derivation in another place.
-/

namespace ModuleLoader.Script

namespace Derivation

mutual
/-- A derivation of an expression. -/
inductive Expr where
  | literal (spelling : Spelling) (span : Span)
  | symbol (quote : Span) (name : List Char) (span : Span)
  | reference (name : List Char) (span : Span)
  | array (opening : Span) (items : Items) (closing : Span)
  | call (name : List Char) (span opening : Span) (items : Items) (closing : Span)

/-- A derivation of the items between two brackets, if there are any. -/
inductive Items where
  | nothing
  | items (first : Expr) (more : More)

inductive More where
  | done
  | next (comma : Span) (item : Expr) (more : More)
end

inductive Clause where
  | expression (e : Expr)
  | assignment (name : List Char) (span assign : Span) (value : Expr)

structure Sentence where
  clause : Clause
  semicolon : Option Span

end Derivation

/-- A derivation of a program. -/
@[ext]
structure Derivation where
  sentences : List Derivation.Sentence

namespace Derivation

/-! ## The tokens of a derivation -/

mutual
def Expr.tokens : Expr → List Token
  | .literal spelling span => [⟨.literal spelling, span⟩]
  | .symbol quote name span => [⟨.quote, quote⟩, ⟨.name name, span⟩]
  | .reference name span => [⟨.name name, span⟩]
  | .array opening items closing =>
    ⟨.openBracket, opening⟩ :: (items.tokens ++ [⟨.closeBracket, closing⟩])
  | .call name span opening items closing =>
    ⟨.name name, span⟩ :: ⟨.openParen, opening⟩ :: (items.tokens ++ [⟨.closeParen, closing⟩])

def Items.tokens : Items → List Token
  | .nothing => []
  | .items first more => first.tokens ++ more.tokens

def More.tokens : More → List Token
  | .done => []
  | .next comma item more => ⟨.comma, comma⟩ :: (item.tokens ++ more.tokens)
end

def Clause.tokens : Clause → List Token
  | .expression e => e.tokens
  | .assignment name span assign value => ⟨.name name, span⟩ :: ⟨.assign, assign⟩ :: value.tokens

def Sentence.tokens (s : Sentence) : List Token :=
  s.clause.tokens ++ (s.semicolon.map (Token.mk .semicolon)).toList

def tokens (d : Derivation) : List Token := d.sentences.flatMap Sentence.tokens

/-! ## The statements of a derivation -/

section
variable {α : Type} (value : Spelling → α)

mutual
/-- The expression derived, with its literals read by `value`. -/
def Expr.expression : Expr → Expression α
  | .literal spelling span => .literal (value spelling) span
  | .symbol quote name span => .symbol (String.ofList name) ⟨quote.start, span.stop⟩
  | .reference name span => .reference (String.ofList name) span
  | .array opening items closing => .array items.expressions ⟨opening.start, closing.stop⟩
  | .call name span _ items closing =>
    .call (String.ofList name) items.expressions ⟨span.start, closing.stop⟩

def Items.expressions : Items → List (Expression α)
  | .nothing => []
  | .items first more => first.expression :: more.expressions

def More.expressions : More → List (Expression α)
  | .done => []
  | .next _ item more => item.expression :: more.expressions
end

def Clause.statement : Clause → Statement α
  | .expression e => .evaluate (e.expression value)
  | .assignment name span _ e =>
    .assign (String.ofList name) (e.expression value) ⟨span.start, (e.expression value).span.stop⟩

def statements (d : Derivation) : List (Statement α) :=
  d.sentences.map (fun s => s.clause.statement value)

end

/-! ## No tokens have two derivations -/

/-- The token begins an expression. -/
def Begins (token : Token) : Prop :=
  match token.lexeme with
  | .literal _ | .name _ | .quote | .openBracket => True
  | _ => False

/-- The token closes a bracket. -/
def Closes (token : Token) : Prop := token.lexeme = .closeParen ∨ token.lexeme = .closeBracket

/-- The tokens do not make more of a name that stands before them. -/
def Settles (rest : List Token) : Prop :=
  ∀ token ∈ rest.head?, token.lexeme ≠ .openParen ∧ token.lexeme ≠ .assign

theorem Expr.exists_begins (e : Expr) : ∃ token more, e.tokens = token :: more ∧ Begins token := by
  cases e with
  | literal spelling span => exact ⟨_, _, rfl, trivial⟩
  | symbol quote name span => exact ⟨_, _, rfl, trivial⟩
  | reference name span => exact ⟨_, _, rfl, trivial⟩
  | array opening items closing => exact ⟨_, _, rfl, trivial⟩
  | call name span opening items closing => exact ⟨_, _, rfl, trivial⟩

theorem Expr.length_lt (e : Expr) {tokens rest : List Token} (h : tokens = e.tokens ++ rest) :
    rest.length < tokens.length := by
  obtain ⟨token, more, htokens, -⟩ := e.exists_begins
  rw [h, htokens, List.length_append, List.length_cons]
  omega

theorem settles_of_begins {token : Token} {rest : List Token} (h : Begins token) :
    Settles (token :: rest) := by
  intro t ht
  obtain rfl := Option.some.inj ht
  unfold Begins at h
  constructor <;> intro hlexeme <;> rw [hlexeme] at h <;> exact h

theorem settles_of_closes {token : Token} {rest : List Token} (h : Closes token) :
    Settles (token :: rest) := by
  intro t ht
  obtain rfl := Option.some.inj ht
  rcases h with h | h <;> simp [h]

theorem not_begins_of_closes {token : Token} (h : Closes token) : ¬ Begins token := by
  unfold Begins
  rcases h with h | h <;> simp [h]

theorem More.settles (more : More) {closing : Token} (h : Closes closing) (rest : List Token) :
    Settles (more.tokens ++ closing :: rest) := by
  cases more with
  | done => exact settles_of_closes h
  | next comma item more =>
    intro t ht
    obtain rfl := Option.some.inj ht
    simp

mutual
theorem Expr.eq_of_append (e e' : Expr) {r r' : List Token} (hr : Settles r) (hr' : Settles r')
    (h : e.tokens ++ r = e'.tokens ++ r') : e = e' ∧ r = r' := by
  cases e with
  | literal spelling span =>
    cases e' with
    | literal spelling' span' => simpa [Expr.tokens, and_assoc] using h
    | _ => simp [Expr.tokens] at h
  | symbol quote name span =>
    cases e' with
    | symbol quote' name' span' => simpa [Expr.tokens, and_assoc] using h
    | _ => simp [Expr.tokens] at h
  | reference name span =>
    cases e' with
    | reference name' span' => simpa [Expr.tokens, and_assoc] using h
    | call name' span' opening items closing =>
      -- The parenthesis of the call would stand behind the reference.
      simp only [Expr.tokens, List.cons_append, List.nil_append, List.cons.injEq] at h
      exact absurd rfl (hr ⟨.openParen, opening⟩ (by rw [h.2]; rfl)).1
    | _ => simp [Expr.tokens] at h
  | array opening items closing =>
    cases e' with
    | array opening' items' closing' =>
      simp only [Expr.tokens, List.cons_append, List.nil_append, List.append_assoc,
        List.cons.injEq, Token.mk.injEq, true_and] at h
      obtain ⟨rfl, hclosing, rfl⟩ :=
        Items.eq_of_append items items' (Or.inr rfl) (Or.inr rfl) h.2
      simpa using ⟨h.1, (Token.mk.inj hclosing).2⟩
    | _ => simp [Expr.tokens] at h
  | call name span opening items closing =>
    cases e' with
    | call name' span' opening' items' closing' =>
      simp only [Expr.tokens, List.cons_append, List.nil_append, List.append_assoc,
        List.cons.injEq, Token.mk.injEq, true_and] at h
      obtain ⟨⟨hname, hspan⟩, hopening, h⟩ := h
      obtain ⟨rfl, hclosing, rfl⟩ :=
        Items.eq_of_append items items' (Or.inl rfl) (Or.inl rfl) h
      simpa using ⟨Lexeme.name.inj hname, hspan, hopening, (Token.mk.inj hclosing).2⟩
    | reference name' span' =>
      simp only [Expr.tokens, List.cons_append, List.nil_append, List.cons.injEq] at h
      exact absurd rfl (hr' ⟨.openParen, opening⟩ (by rw [← h.2]; rfl)).1
    | _ => simp [Expr.tokens] at h

theorem Items.eq_of_append (items items' : Items) {closing closing' : Token} {r r' : List Token}
    (hclosing : Closes closing) (hclosing' : Closes closing')
    (h : items.tokens ++ closing :: r = items'.tokens ++ closing' :: r') :
    items = items' ∧ closing = closing' ∧ r = r' := by
  cases items with
  | nothing =>
    cases items' with
    | nothing => simpa [Items.tokens] using h
    | items first more =>
      obtain ⟨token, others, htokens, hbegins⟩ := first.exists_begins
      simp only [Items.tokens, htokens, List.cons_append, List.nil_append, List.cons.injEq] at h
      exact absurd hbegins (h.1 ▸ not_begins_of_closes hclosing)
  | items first more =>
    cases items' with
    | nothing =>
      obtain ⟨token, others, htokens, hbegins⟩ := first.exists_begins
      simp only [Items.tokens, htokens, List.cons_append, List.nil_append, List.cons.injEq] at h
      exact absurd hbegins (h.1 ▸ not_begins_of_closes hclosing')
    | items first' more' =>
      simp only [Items.tokens, List.append_assoc] at h
      obtain ⟨rfl, hrest⟩ :=
        Expr.eq_of_append first first' (more.settles hclosing r) (more'.settles hclosing' r') h
      obtain ⟨rfl, hend⟩ := More.eq_of_append more more' hclosing hclosing' hrest
      exact ⟨rfl, hend⟩

theorem More.eq_of_append (more more' : More) {closing closing' : Token} {r r' : List Token}
    (hclosing : Closes closing) (hclosing' : Closes closing')
    (h : more.tokens ++ closing :: r = more'.tokens ++ closing' :: r') :
    more = more' ∧ closing = closing' ∧ r = r' := by
  cases more with
  | done =>
    cases more' with
    | done => simpa [More.tokens] using h
    | next comma' item' more' =>
      simp only [More.tokens, List.cons_append, List.nil_append, List.cons.injEq] at h
      rw [h.1] at hclosing
      rcases hclosing with hlexeme | hlexeme <;> cases hlexeme
  | next comma item more =>
    cases more' with
    | done =>
      simp only [More.tokens, List.cons_append, List.nil_append, List.cons.injEq] at h
      rw [← h.1] at hclosing'
      rcases hclosing' with hlexeme | hlexeme <;> cases hlexeme
    | next comma' item' more' =>
      simp only [More.tokens, List.cons_append, List.append_assoc, List.cons.injEq,
        Token.mk.injEq, true_and] at h
      obtain ⟨rfl, hitems⟩ := h
      obtain ⟨rfl, hrest⟩ := Expr.eq_of_append item item' (more.settles hclosing r)
        (more'.settles hclosing' r') hitems
      obtain ⟨rfl, hend⟩ := More.eq_of_append more more' hclosing hclosing' hrest
      exact ⟨rfl, hend⟩
end

theorem Expr.append_ne_assignment (e : Expr) {r rest : List Token} (hr : Settles r)
    (name : List Char) (span assign : Span) :
    e.tokens ++ r ≠ ⟨.name name, span⟩ :: ⟨.assign, assign⟩ :: rest := by
  intro h
  cases e with
  | reference name' span' =>
    simp only [Expr.tokens, List.cons_append, List.nil_append, List.cons.injEq] at h
    exact absurd rfl (hr ⟨.assign, assign⟩ (by rw [h.2]; rfl)).2
  | _ => simp [Expr.tokens] at h

theorem Clause.eq_of_append {c c' : Clause} {r r' : List Token} (hr : Settles r)
    (hr' : Settles r') (h : c.tokens ++ r = c'.tokens ++ r') : c = c' ∧ r = r' := by
  cases c with
  | expression e =>
    cases c' with
    | expression e' =>
      obtain ⟨rfl, rfl⟩ := e.eq_of_append e' hr hr' h
      exact ⟨rfl, rfl⟩
    | assignment name span assign value => exact absurd h (e.append_ne_assignment hr _ _ _)
  | assignment name span assign value =>
    cases c' with
    | expression e => exact absurd h.symm (e.append_ne_assignment hr' _ _ _)
    | assignment name' span' assign' value' =>
      simp only [Clause.tokens, List.cons_append, List.cons.injEq, Token.mk.injEq,
        Lexeme.name.injEq, true_and] at h
      obtain ⟨⟨rfl, rfl⟩, rfl, hvalue⟩ := h
      obtain ⟨rfl, rfl⟩ := value.eq_of_append value' hr hr' hvalue
      exact ⟨rfl, rfl⟩

theorem Clause.exists_begins (c : Clause) :
    ∃ token more, c.tokens = token :: more ∧ Begins token := by
  cases c with
  | expression e => exact e.exists_begins
  | assignment name span assign value => exact ⟨_, _, rfl, trivial⟩

theorem Clause.length_lt (c : Clause) {tokens rest : List Token}
    (h : tokens = c.tokens ++ rest) : rest.length < tokens.length := by
  obtain ⟨token, more, htokens, -⟩ := c.exists_begins
  rw [h, htokens, List.length_append, List.length_cons]
  omega

theorem Sentence.exists_begins (s : Sentence) :
    ∃ token more, s.tokens = token :: more ∧ Begins token := by
  obtain ⟨token, more, htokens, hbegins⟩ := s.clause.exists_begins
  exact ⟨token, more ++ _, by rw [Sentence.tokens, htokens]; rfl, hbegins⟩

/-- Behind a statement comes its semicolon, or another statement. -/
theorem settles_semicolon (semicolon : Option Span) (sentences : List Sentence) :
    Settles ((semicolon.map (Token.mk .semicolon)).toList ++
      sentences.flatMap Sentence.tokens) := by
  cases semicolon with
  | some span =>
    intro t ht
    obtain rfl := Option.some.inj ht
    exact ⟨Lexeme.noConfusion, Lexeme.noConfusion⟩
  | none =>
    cases sentences with
    | nil => exact fun t ht => by cases ht
    | cons s sentences =>
      obtain ⟨token, more, htokens, hbegins⟩ := s.exists_begins
      simp only [Option.map_none, Option.toList_none, List.nil_append, List.flatMap_cons, htokens]
      exact settles_of_begins hbegins

theorem sentences_ne_semicolon (sentences : List Sentence) (span : Span) (rest : List Token) :
    sentences.flatMap Sentence.tokens ≠ ⟨.semicolon, span⟩ :: rest := by
  cases sentences with
  | nil => simp
  | cons s sentences =>
    obtain ⟨token, more, htokens, hbegins⟩ := s.exists_begins
    rw [List.flatMap_cons, htokens]
    intro h
    rw [(List.cons.inj h).1] at hbegins
    exact hbegins

theorem semicolon_eq_of_append {semicolon semicolon' : Option Span} {s t : List Sentence}
    (h : (semicolon.map (Token.mk .semicolon)).toList ++ s.flatMap Sentence.tokens =
      (semicolon'.map (Token.mk .semicolon)).toList ++ t.flatMap Sentence.tokens) :
    semicolon = semicolon' ∧ s.flatMap Sentence.tokens = t.flatMap Sentence.tokens := by
  cases semicolon with
  | none =>
    cases semicolon' with
    | none => exact ⟨rfl, h⟩
    | some span => exact absurd h (sentences_ne_semicolon s span _)
  | some span =>
    cases semicolon' with
    | none => exact absurd h.symm (sentences_ne_semicolon t span _)
    | some span' => simpa using h

theorem sentences_injective {s t : List Sentence}
    (h : s.flatMap Sentence.tokens = t.flatMap Sentence.tokens) : s = t := by
  induction s generalizing t with
  | nil =>
    cases t with
    | nil => rfl
    | cons y t =>
      obtain ⟨token, more, htokens, -⟩ := y.exists_begins
      rw [List.flatMap_cons, htokens] at h
      cases h
  | cons x s ih =>
    cases t with
    | nil =>
      obtain ⟨token, more, htokens, -⟩ := x.exists_begins
      rw [List.flatMap_cons, htokens] at h
      cases h
    | cons y t =>
      rw [List.flatMap_cons, List.flatMap_cons, Sentence.tokens, Sentence.tokens,
        List.append_assoc, List.append_assoc] at h
      obtain ⟨hclause, hrest⟩ := Clause.eq_of_append (settles_semicolon x.semicolon s)
        (settles_semicolon y.semicolon t) h
      obtain ⟨hsemicolon, hmore⟩ := semicolon_eq_of_append hrest
      obtain ⟨clause, semicolon⟩ := x
      subst hclause hsemicolon
      rw [ih hmore]

/-- No tokens have two derivations. -/
theorem tokens_injective {d d' : Derivation} (h : d.tokens = d'.tokens) : d = d' :=
  Derivation.ext (sentences_injective h)

/-! ## The ends of constructs -/

theorem extent_cons_cons (first second : Token) (more : List Token) :
    extent (first :: second :: more) =
      (extent (second :: more)).map (fun span => ⟨first.span.start, span.stop⟩) := by
  simp [extent, List.getLast?_cons]

theorem extent_enclosed (first last : Token) (middle : List Token) :
    extent (first :: (middle ++ [last])) = some ⟨first.span.start, last.span.stop⟩ := by
  simp [extent, List.getLast?_cons]

theorem endsInQuote_enclosed (afterQuote : Bool) (tokens : List Token) (last : Token) :
    endsInQuote afterQuote (tokens ++ [last]) = (last.lexeme == .quote) := by
  rw [endsInQuote_append]
  rfl

theorem Expr.endsInQuote_tokens (e : Expr) (afterQuote : Bool) :
    endsInQuote afterQuote e.tokens = false := by
  cases e with
  | literal spelling span => rfl
  | symbol quote name span => rfl
  | reference name span => rfl
  | array opening items closing => exact endsInQuote_enclosed _ (_ :: items.tokens) _
  | call name span opening items closing =>
    exact endsInQuote_enclosed _ (_ :: _ :: items.tokens) _

theorem Clause.endsInQuote_tokens (c : Clause) (afterQuote : Bool) :
    endsInQuote afterQuote c.tokens = false := by
  cases c with
  | expression e => exact e.endsInQuote_tokens afterQuote
  | assignment name span assign value => exact value.endsInQuote_tokens _

theorem endsInQuote_sentences (sentences : List Sentence) :
    endsInQuote false (sentences.flatMap Sentence.tokens) = false := by
  induction sentences with
  | nil => rfl
  | cons s sentences ih =>
    rw [List.flatMap_cons, Sentence.tokens, List.append_assoc, endsInQuote_append,
      s.clause.endsInQuote_tokens, endsInQuote_append]
    cases s.semicolon with
    | none => exact ih
    | some span => exact ih

section
variable {α : Type} (value : Spelling → α)

/-- An expression reaches from its first token to its last. -/
theorem Expr.extent_tokens (e : Expr) : extent e.tokens = some (e.expression value).span := by
  cases e with
  | literal spelling span => rfl
  | symbol quote name span => rfl
  | reference name span => rfl
  | array opening items closing => exact extent_enclosed _ _ items.tokens
  | call name span opening items closing => exact extent_enclosed _ _ (_ :: items.tokens)

theorem Expr.span_expression {β : Type} (value' : Spelling → β) (e : Expr) :
    (e.expression value).span = (e.expression value').span :=
  Option.some.inj ((e.extent_tokens value).symm.trans (e.extent_tokens value'))

/-- A statement reaches from its first token to the last before its semicolon. -/
theorem Clause.extent_tokens (c : Clause) : extent c.tokens = some (c.statement value).span := by
  cases c with
  | expression e => exact e.extent_tokens value
  | assignment name span assign e =>
    have hvalue := e.extent_tokens value
    obtain ⟨token, more, htokens, -⟩ := e.exists_begins
    rw [htokens] at hvalue
    rw [Clause.tokens, htokens, extent_cons_cons, extent_cons_cons, hvalue]
    rfl

end

/-! ## Derivations in other places -/

mutual
def Expr.relocate (move : Position → Position) : Expr → Expr
  | .literal spelling span => .literal spelling (span.relocate move)
  | .symbol quote name span => .symbol (quote.relocate move) name (span.relocate move)
  | .reference name span => .reference name (span.relocate move)
  | .array opening items closing =>
    .array (opening.relocate move) (items.relocate move) (closing.relocate move)
  | .call name span opening items closing =>
    .call name (span.relocate move) (opening.relocate move) (items.relocate move)
      (closing.relocate move)

def Items.relocate (move : Position → Position) : Items → Items
  | .nothing => .nothing
  | .items first more => .items (first.relocate move) (more.relocate move)

def More.relocate (move : Position → Position) : More → More
  | .done => .done
  | .next comma item more =>
    .next (comma.relocate move) (item.relocate move) (more.relocate move)
end

def Clause.relocate (move : Position → Position) : Clause → Clause
  | .expression e => .expression (e.relocate move)
  | .assignment name span assign value =>
    .assignment name (span.relocate move) (assign.relocate move) (value.relocate move)

def Sentence.relocate (move : Position → Position) (s : Sentence) : Sentence :=
  ⟨s.clause.relocate move, s.semicolon.map (Span.relocate move)⟩

def relocate (move : Position → Position) (d : Derivation) : Derivation :=
  ⟨d.sentences.map (Sentence.relocate move)⟩

section
variable (move : Position → Position)

mutual
theorem Expr.tokens_relocate (e : Expr) :
    (e.relocate move).tokens = e.tokens.map (Token.relocate move) := by
  cases e with
  | literal spelling span => rfl
  | symbol quote name span => rfl
  | reference name span => rfl
  | array opening items closing =>
    simp [Expr.relocate, Expr.tokens, items.tokens_relocate, Token.relocate]
  | call name span opening items closing =>
    simp [Expr.relocate, Expr.tokens, items.tokens_relocate, Token.relocate]

theorem Items.tokens_relocate (items : Items) :
    (items.relocate move).tokens = items.tokens.map (Token.relocate move) := by
  cases items with
  | nothing => rfl
  | items first more =>
    simp [Items.relocate, Items.tokens, first.tokens_relocate, more.tokens_relocate]

theorem More.tokens_relocate (more : More) :
    (more.relocate move).tokens = more.tokens.map (Token.relocate move) := by
  cases more with
  | done => rfl
  | next comma item more =>
    simp [More.relocate, More.tokens, item.tokens_relocate, more.tokens_relocate, Token.relocate]
end

theorem Clause.tokens_relocate (c : Clause) :
    (c.relocate move).tokens = c.tokens.map (Token.relocate move) := by
  cases c with
  | expression e => exact e.tokens_relocate move
  | assignment name span assign value =>
    simp [Clause.relocate, Clause.tokens, value.tokens_relocate, Token.relocate]

theorem Sentence.tokens_relocate (s : Sentence) :
    (s.relocate move).tokens = s.tokens.map (Token.relocate move) := by
  rw [Sentence.tokens, Sentence.tokens, List.map_append]
  congr 1
  · exact s.clause.tokens_relocate move
  · cases h : s.semicolon <;> simp [Sentence.relocate, h, Token.relocate]

theorem tokens_relocate (d : Derivation) :
    (d.relocate move).tokens = d.tokens.map (Token.relocate move) := by
  simp only [tokens, relocate, List.flatMap_map, List.map_flatMap, Sentence.tokens_relocate]

variable {α : Type} (value : Spelling → α)

mutual
theorem Expr.expression_relocate (e : Expr) :
    (e.relocate move).expression value = (e.expression value).relocate move := by
  cases e with
  | literal spelling span => rfl
  | symbol quote name span => rfl
  | reference name span => rfl
  | array opening items closing =>
    simp only [Expr.relocate, Expr.expression, Expression.relocate, items.expressions_relocate]
    rfl
  | call name span opening items closing =>
    simp only [Expr.relocate, Expr.expression, Expression.relocate, items.expressions_relocate]
    rfl

theorem Items.expressions_relocate (items : Items) :
    (items.relocate move).expressions value = relocateAll move (items.expressions value) := by
  cases items with
  | nothing => rfl
  | items first more =>
    simp only [Items.relocate, Items.expressions, relocateAll, first.expression_relocate,
      more.expressions_relocate]

theorem More.expressions_relocate (more : More) :
    (more.relocate move).expressions value = relocateAll move (more.expressions value) := by
  cases more with
  | done => rfl
  | next comma item more =>
    simp only [More.relocate, More.expressions, relocateAll, item.expression_relocate,
      more.expressions_relocate]
end

theorem Clause.statement_relocate (c : Clause) :
    (c.relocate move).statement value = (c.statement value).relocate move := by
  cases c with
  | expression e => exact congrArg Statement.evaluate (e.expression_relocate move value)
  | assignment name span assign e =>
    simp only [Clause.relocate, Clause.statement, Statement.relocate,
      e.expression_relocate move value, Expression.span_relocate]
    rfl

theorem statements_relocate (d : Derivation) :
    (d.relocate move).statements value = (d.statements value).map (Statement.relocate move) := by
  simp only [statements, relocate, List.map_map]
  exact List.map_congr_left (fun s _ => s.clause.statement_relocate move value)

end

end Derivation

end ModuleLoader.Script
