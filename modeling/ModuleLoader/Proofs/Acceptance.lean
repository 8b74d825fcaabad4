import ModuleLoader.Proofs.Recognition

/-!
# The sources that are programs

* `Evaluates` : the literals among tokens have these values;
* `evaluateLiterals_statements` : the literals of a derivation are evaluated just if its tokens
  have values;
* `parse_derivation`, `exists_derivation` : a source is a program just if its tokens have a
  derivation and their literals have values, and then the one that the derivation stands for;
* `parse_accepts_grammar` : what is reported and what is returned, for any source that splits into
  tokens.
-/

namespace ModuleLoader.Script

open ModuleLoader.Script.Derivation (Expr Items More Clause Sentence)

/-! ## Values of literals -/

def Lexeme.spelling? : Lexeme → Option Spelling
  | .literal spelling => some spelling
  | _ => none

/-- The literals among the tokens have these values. -/
def Evaluates (names : CharacterNames) (value : Spelling → Literal) (tokens : List Token) : Prop :=
  ∀ token ∈ tokens, ∀ spelling ∈ token.lexeme.spelling?,
    spelling.evaluate names = .ok (value spelling)

instance (names : CharacterNames) (value : Spelling → Literal) (tokens : List Token) :
    Decidable (Evaluates names value tokens) :=
  inferInstanceAs (Decidable (∀ token ∈ tokens, ∀ spelling ∈ token.lexeme.spelling?,
    spelling.evaluate names = .ok (value spelling)))

def Spelling.value (names : CharacterNames) (spelling : Spelling) : Literal :=
  match spelling.evaluate names with
  | .ok value => value
  | .error _ => .nil

section
variable {names : CharacterNames} {value : Spelling → Literal}

theorem evaluates_append {s t : List Token} :
    Evaluates names value (s ++ t) ↔ Evaluates names value s ∧ Evaluates names value t :=
  List.forall_mem_append

theorem evaluates_cons {token : Token} {tokens : List Token} :
    Evaluates names value (token :: tokens) ↔
      (∀ spelling ∈ token.lexeme.spelling?, spelling.evaluate names = .ok (value spelling)) ∧
        Evaluates names value tokens :=
  List.forall_mem_cons

theorem evaluates_nil : Evaluates names value [] := by
  intro token htoken
  cases htoken

theorem Evaluates.relocate {tokens : List Token} (h : Evaluates names value tokens)
    (move : Position → Position) : Evaluates names value (tokens.map (Token.relocate move)) := by
  intro token htoken spelling hspelling
  obtain ⟨original, horiginal, rfl⟩ := List.mem_map.1 htoken
  exact h original horiginal spelling hspelling

end

theorem Spelling.evaluate_eq_value {names : CharacterNames} {spelling : Spelling} {v : Literal}
    (h : spelling.evaluate names = .ok v) :
    spelling.evaluate names = .ok (spelling.value names) := by
  simp only [Spelling.value, h]

namespace Derivation

section
variable {names : CharacterNames} {value : Spelling → Literal}

mutual
theorem Expr.evaluateLiterals_expression (e : Expr) (h : Evaluates names value e.tokens) :
    (e.expression id).evaluateLiterals names = .ok (e.expression value) := by
  cases e with
  | literal spelling span =>
    have hvalue := h _ (List.mem_singleton.2 rfl) spelling rfl
    simp [Expr.expression, Expression.evaluateLiterals, hvalue]
  | symbol quote name span => rfl
  | reference name span => rfl
  | array opening items closing =>
    have hitems := items.evaluateLiterals_expressions
      (evaluates_append.1 (evaluates_cons.1 h).2).1
    simp [Expr.expression, Expression.evaluateLiterals, hitems]
  | call name span opening items closing =>
    have hitems := items.evaluateLiterals_expressions
      (evaluates_append.1 (evaluates_cons.1 (evaluates_cons.1 h).2).2).1
    simp [Expr.expression, Expression.evaluateLiterals, hitems]

theorem Items.evaluateLiterals_expressions (items : Items)
    (h : Evaluates names value items.tokens) :
    evaluateLiteralsOf names (items.expressions id) = .ok (items.expressions value) := by
  cases items with
  | nothing => rfl
  | items first more =>
    have hitems := evaluates_append.1 h
    simp only [Items.expressions, evaluateLiteralsOf, first.evaluateLiterals_expression hitems.1,
      more.evaluateLiterals_expressions hitems.2]
    rfl

theorem More.evaluateLiterals_expressions (more : More) (h : Evaluates names value more.tokens) :
    evaluateLiteralsOf names (more.expressions id) = .ok (more.expressions value) := by
  cases more with
  | done => rfl
  | next comma item more =>
    have hitems := evaluates_append.1 (evaluates_cons.1 h).2
    simp only [More.expressions, evaluateLiteralsOf, item.evaluateLiterals_expression hitems.1,
      more.evaluateLiterals_expressions hitems.2]
    rfl
end

theorem Clause.evaluateLiterals_statement (c : Clause) (h : Evaluates names value c.tokens) :
    (c.statement id).evaluateLiterals names = .ok (c.statement value) := by
  cases c with
  | expression e =>
    simp [Clause.statement, Statement.evaluateLiterals, e.evaluateLiterals_expression h]
  | assignment name span assign e =>
    have hvalue := e.evaluateLiterals_expression (evaluates_cons.1 (evaluates_cons.1 h).2).2
    simp [Clause.statement, Statement.evaluateLiterals, hvalue, e.span_expression id value]

theorem Sentence.evaluates_iff {s : Sentence} :
    Evaluates names value s.tokens ↔ Evaluates names value s.clause.tokens := by
  rw [Sentence.tokens, evaluates_append]
  refine and_iff_left ?_
  cases s.semicolon with
  | none => exact evaluates_nil
  | some span =>
    refine evaluates_cons.2 ⟨?_, evaluates_nil⟩
    rintro _ ⟨⟩

theorem evaluateLiterals_statements (d : Derivation) (h : Evaluates names value d.tokens) :
    (d.statements id).mapM (Statement.evaluateLiterals names) = .ok (d.statements value) := by
  obtain ⟨sentences⟩ := d
  induction sentences with
  | nil => rfl
  | cons s sentences ih =>
    obtain ⟨hs, hmore⟩ := evaluates_append.1 h
    have hstatement := s.clause.evaluateLiterals_statement (Sentence.evaluates_iff.1 hs)
    have hstatements := ih hmore
    simp only [statements, List.map_cons, List.mapM_cons] at hstatements ⊢
    rw [hstatement, hstatements]
    rfl

end

/-! ## What evaluates has values -/

theorem exists_ok_of_map {α β ε : Type} {f : α → β} {r : Except ε α} {y : β}
    (h : f <$> r = .ok y) : ∃ x, r = .ok x := by
  cases r with
  | error e => cases h
  | ok x => exact ⟨x, rfl⟩

theorem exists_ok_of_evaluateLiteralsOf {names : CharacterNames} {item : Expression Spelling}
    {items : List (Expression Spelling)} {es : List (Expression Literal)}
    (h : evaluateLiteralsOf names (item :: items) = .ok es) :
    (∃ e, item.evaluateLiterals names = .ok e) ∧
      ∃ more, evaluateLiteralsOf names items = .ok more := by
  rw [evaluateLiteralsOf] at h
  cases hitem : item.evaluateLiterals names with
  | error fault => rw [hitem] at h; cases h
  | ok e =>
    cases hitems : evaluateLiteralsOf names items with
    | error fault => rw [hitem, hitems] at h; cases h
    | ok more => exact ⟨⟨e, rfl⟩, more, rfl⟩

section
variable {names : CharacterNames}

mutual
theorem Expr.evaluates_of_ok (e : Expr) {x : Expression Literal}
    (h : (e.expression id).evaluateLiterals names = .ok x) :
    Evaluates names (Spelling.value names) e.tokens := by
  cases e with
  | literal spelling span =>
    obtain ⟨v, hv⟩ := exists_ok_of_map h
    refine evaluates_cons.2 ⟨?_, evaluates_nil⟩
    rintro _ ⟨⟩
    exact Spelling.evaluate_eq_value hv
  | symbol quote name span => simp [Expr.tokens, Evaluates, Lexeme.spelling?]
  | reference name span => simp [Expr.tokens, Evaluates, Lexeme.spelling?]
  | array opening items closing =>
    obtain ⟨es, hes⟩ := exists_ok_of_map h
    have hitems := items.evaluates_of_ok hes
    simpa [Expr.tokens, evaluates_cons, evaluates_append, evaluates_nil, Lexeme.spelling?]
      using hitems
  | call name span opening items closing =>
    obtain ⟨es, hes⟩ := exists_ok_of_map h
    have hitems := items.evaluates_of_ok hes
    simpa [Expr.tokens, evaluates_cons, evaluates_append, evaluates_nil, Lexeme.spelling?]
      using hitems

theorem Items.evaluates_of_ok (items : Items) {es : List (Expression Literal)}
    (h : evaluateLiteralsOf names (items.expressions id) = .ok es) :
    Evaluates names (Spelling.value names) items.tokens := by
  cases items with
  | nothing => exact evaluates_nil
  | items first more =>
    obtain ⟨⟨e, he⟩, others, hothers⟩ := exists_ok_of_evaluateLiteralsOf h
    exact evaluates_append.2 ⟨first.evaluates_of_ok he, more.evaluates_of_ok hothers⟩

theorem More.evaluates_of_ok (more : More) {es : List (Expression Literal)}
    (h : evaluateLiteralsOf names (more.expressions id) = .ok es) :
    Evaluates names (Spelling.value names) more.tokens := by
  cases more with
  | done => exact evaluates_nil
  | next comma item more =>
    obtain ⟨⟨e, he⟩, others, hothers⟩ := exists_ok_of_evaluateLiteralsOf h
    have hitems := evaluates_append.2 ⟨item.evaluates_of_ok he, more.evaluates_of_ok hothers⟩
    simpa [More.tokens, evaluates_cons, Lexeme.spelling?] using hitems
end

theorem Clause.evaluates_of_ok (c : Clause) {x : Statement Literal}
    (h : (c.statement id).evaluateLiterals names = .ok x) :
    Evaluates names (Spelling.value names) c.tokens := by
  cases c with
  | expression e =>
    obtain ⟨v, hv⟩ := exists_ok_of_map h
    exact e.evaluates_of_ok hv
  | assignment name span assign e =>
    obtain ⟨v, hv⟩ := exists_ok_of_map h
    have hvalue := e.evaluates_of_ok hv
    simpa [Clause.tokens, evaluates_cons, Lexeme.spelling?] using hvalue

theorem evaluates_of_ok (d : Derivation) {statements : List (Statement Literal)}
    (h : (d.statements id).mapM (Statement.evaluateLiterals names) = .ok statements) :
    Evaluates names (Spelling.value names) d.tokens := by
  obtain ⟨sentences⟩ := d
  induction sentences generalizing statements with
  | nil => exact evaluates_nil
  | cons s sentences ih =>
    simp only [Derivation.statements, List.map_cons, List.mapM_cons] at h
    cases hs : (s.clause.statement id).evaluateLiterals names with
    | error fault => rw [hs] at h; cases h
    | ok first =>
      cases hmore : (sentences.map (fun s => s.clause.statement id)).mapM
          (Statement.evaluateLiterals names) with
      | error fault => rw [hs, hmore] at h; cases h
      | ok others =>
        exact evaluates_append.2
          ⟨Sentence.evaluates_iff.2 (s.clause.evaluates_of_ok hs), ih hmore⟩

end

end Derivation

/-! ## Parsing -/

/-- The fault is a token that may not stand where it does, or an end of the source that may not. -/
def SourceFault.Misplaced : SourceFault → Prop
  | .unexpectedToken _ _ | .unexpectedEnd _ => True
  | .unexpectedCharacter _ _ | .literal _ => False

/-- Tokens make the statements that their derivation stands for. -/
theorem assemble_eq_ok_iff {tokens : Tokens} {statements : List (Statement Spelling)} :
    assemble tokens = .ok statements ↔
      ∃ d : Derivation, tokens = ⟨d.tokens, none⟩ ∧ statements = d.statements id := by
  have hread : assemble tokens = .ok statements ↔
      tokens.stray = none ∧ Assembly.start.read? tokens.tokens = some statements := by
    unfold assemble Assembly.read?
    cases Assembly.start.run tokens.tokens with
    | error token => simp
    | ok last =>
      cases tokens.stray with
      | some found => simp
      | none => cases hfinish : last.finish? <;> simp [hfinish]
  rw [hread, Assembly.read?_eq_some_iff]
  constructor
  · rintro ⟨hstray, d, hd, hstatements⟩
    exact ⟨d, by rw [hd, ← hstray], hstatements⟩
  · rintro ⟨d, rfl, hstatements⟩
    exact ⟨rfl, d, rfl, hstatements⟩

/-- Tokens that make no statements are misplaced. -/
theorem misplaced_of_assemble {tokens : Tokens} {fault : SourceFault}
    (hstray : tokens.stray = none) (h : assemble tokens = .error fault) : fault.Misplaced := by
  unfold assemble at h
  rw [hstray] at h
  split at h
  · cases h
    trivial
  · split at h
    · rename_i heq
      cases heq
    · cases h
    · cases h
      trivial

theorem parse_of_assemble (names : CharacterNames) (file : String) {source : List Char}
    {statements : List (Statement Spelling)}
    (h : assemble (Tokens.ofText source) = .ok statements) :
    parse names file source =
      ((statements.mapM (Statement.evaluateLiterals names)).mapError SourceFault.literal).map
        (fun evaluated => ⟨file, evaluated, extent (Tokens.ofText source).tokens⟩) := by
  simp only [parse, h]
  rfl

theorem parse_of_assemble_error (names : CharacterNames) (file : String) {source : List Char}
    {fault : SourceFault} (h : assemble (Tokens.ofText source) = .error fault) :
    parse names file source = .error fault := by
  simp only [parse, h]
  rfl

/-- A source whose tokens have a derivation and whose literals have values is a program. -/
theorem parse_derivation {names : CharacterNames} (value : Spelling → Literal) (file : String)
    {source : List Char} {d : Derivation} (htokens : Tokens.ofText source = ⟨d.tokens, none⟩)
    (hvalues : Evaluates names value d.tokens) :
    parse names file source = .ok ⟨file, d.statements value, extent d.tokens⟩ := by
  have hassemble := assemble_eq_ok_iff.2 ⟨d, htokens, rfl⟩
  rw [parse_of_assemble names file hassemble, d.evaluateLiterals_statements hvalues, htokens]
  rfl

/-- The tokens of a program have a derivation, and its literals have values. -/
theorem exists_derivation {names : CharacterNames} {file : String} {source : List Char}
    {program : Program} (h : parse names file source = .ok program) :
    ∃ d : Derivation, Tokens.ofText source = ⟨d.tokens, none⟩ ∧
      Evaluates names (Spelling.value names) d.tokens ∧
      program = ⟨file, d.statements (Spelling.value names), extent d.tokens⟩ := by
  cases hassemble : assemble (Tokens.ofText source) with
  | error fault =>
    rw [parse_of_assemble_error names file hassemble] at h
    cases h
  | ok written =>
    obtain ⟨d, htokens, rfl⟩ := assemble_eq_ok_iff.1 hassemble
    cases hevaluate : (d.statements id).mapM (Statement.evaluateLiterals names) with
    | error fault =>
      rw [parse_of_assemble names file hassemble, hevaluate] at h
      cases h
    | ok statements =>
      have hvalues := d.evaluates_of_ok hevaluate
      rw [parse_derivation _ file htokens hvalues] at h
      exact ⟨d, htokens, hvalues, (Except.ok.inj h).symm⟩

/-- A source that splits into tokens has none misplaced just if its tokens have a derivation. -/
theorem misplaced_iff {names : CharacterNames} {file : String} {source : List Char}
    {tokens : List Token} (h : Tokens.ofText source = ⟨tokens, none⟩) :
    (∀ fault, parse names file source = .error fault → ¬ fault.Misplaced) ↔
      ∃ d : Derivation, d.tokens = tokens := by
  constructor
  · intro hplaced
    cases hassemble : assemble (Tokens.ofText source) with
    | error fault =>
      have hfault := parse_of_assemble_error names file hassemble
      exact absurd (misplaced_of_assemble (by rw [h]) hassemble) (hplaced fault hfault)
    | ok written =>
      obtain ⟨d, htokens, -⟩ := assemble_eq_ok_iff.1 hassemble
      rw [h] at htokens
      exact ⟨d, (Tokens.mk.inj htokens).1.symm⟩
  · rintro ⟨d, rfl⟩ fault hfault hmisplaced
    -- Once the tokens make statements, only a literal can be at fault.
    rw [parse_of_assemble names file (assemble_eq_ok_iff.2 ⟨d, h, rfl⟩)] at hfault
    cases hevaluate : (d.statements id).mapM (Statement.evaluateLiterals names) with
    | error literal =>
      rw [hevaluate] at hfault
      cases hfault
      exact hmisplaced
    | ok statements =>
      rw [hevaluate] at hfault
      cases hfault

/-- The parser accepts its grammar: for any source that splits into tokens, no token and no end is
reported just if the tokens have a derivation, which is then the only one; and where the literals
have values, the program is what the derivation stands for. -/
theorem parse_accepts_grammar (names : CharacterNames) (file : String) (source : List Char)
    (tokens : List Token) (h : Tokens.ofText source = ⟨tokens, none⟩) :
    ((∀ fault, parse names file source = .error fault → ¬ fault.Misplaced) ↔
      ∃ d : Derivation, d.tokens = tokens) ∧
    (∀ d d' : Derivation, d.tokens = d'.tokens → d = d') ∧
    ∀ (d : Derivation) (value : Spelling → Literal), d.tokens = tokens →
      Evaluates names value tokens →
      parse names file source = .ok ⟨file, d.statements value, extent tokens⟩ := by
  refine ⟨misplaced_iff h, fun d d' => Derivation.tokens_injective, ?_⟩
  rintro d value rfl hvalues
  exact parse_derivation value file h hvalues

/-- The bullet is the only character with a name. -/
def bulletNamed : CharacterNames := fun name =>
  if name = "BULLET".toList then some '•' else none

theorem parse_accepts_grammar_adjacent :
    Tokens.ofText "f('t)\"\\N\x7bBULLET\x7d\";".toList =
      ⟨[⟨.name ['f'], ⟨1, 1⟩, ⟨1, 2⟩⟩, ⟨.openParen, ⟨1, 2⟩, ⟨1, 3⟩⟩, ⟨.quote, ⟨1, 3⟩, ⟨1, 4⟩⟩,
        ⟨.name ['t'], ⟨1, 4⟩, ⟨1, 5⟩⟩, ⟨.closeParen, ⟨1, 5⟩, ⟨1, 6⟩⟩,
        ⟨.literal (.string "\\N\x7bBULLET\x7d".toList), ⟨1, 6⟩, ⟨1, 18⟩⟩,
        ⟨.semicolon, ⟨1, 18⟩, ⟨1, 19⟩⟩], none⟩ ∧
    parse bulletNamed "main" "f('t)\"\\N\x7bBULLET\x7d\";".toList =
      .ok ⟨"main", [.evaluate (.call "f" [.symbol "t" ⟨⟨1, 3⟩, ⟨1, 5⟩⟩] ⟨⟨1, 1⟩, ⟨1, 6⟩⟩),
        .evaluate (.literal (.string "•") ⟨⟨1, 6⟩, ⟨1, 18⟩⟩)], some ⟨⟨1, 1⟩, ⟨1, 19⟩⟩⟩ := by
  have htokens : Tokens.ofText "f('t)\"\\N\x7bBULLET\x7d\";".toList =
        ⟨[⟨.name ['f'], ⟨1, 1⟩, ⟨1, 2⟩⟩, ⟨.openParen, ⟨1, 2⟩, ⟨1, 3⟩⟩, ⟨.quote, ⟨1, 3⟩, ⟨1, 4⟩⟩,
          ⟨.name ['t'], ⟨1, 4⟩, ⟨1, 5⟩⟩, ⟨.closeParen, ⟨1, 5⟩, ⟨1, 6⟩⟩,
          ⟨.literal (.string "\\N\x7bBULLET\x7d".toList), ⟨1, 6⟩, ⟨1, 18⟩⟩,
          ⟨.semicolon, ⟨1, 18⟩, ⟨1, 19⟩⟩], none⟩ := by
    decide +kernel
  refine ⟨htokens, (parse_accepts_grammar bulletNamed "main" _ _ htokens).2.2
    ⟨[⟨.expression (.call ['f'] ⟨⟨1, 1⟩, ⟨1, 2⟩⟩ ⟨⟨1, 2⟩, ⟨1, 3⟩⟩
        (.items (.symbol ⟨⟨1, 3⟩, ⟨1, 4⟩⟩ ['t'] ⟨⟨1, 4⟩, ⟨1, 5⟩⟩) .done) ⟨⟨1, 5⟩, ⟨1, 6⟩⟩), none⟩,
      ⟨.expression (.literal (.string "\\N\x7bBULLET\x7d".toList) ⟨⟨1, 6⟩, ⟨1, 18⟩⟩),
        some ⟨⟨1, 18⟩, ⟨1, 19⟩⟩⟩]⟩
    (fun _ => .string "•") rfl (by decide +kernel)⟩

end ModuleLoader.Script
