import ModuleLoader.Proofs.Acceptance

/-!
# Where the constructs of a program stand

* `Statement.children`, `Program.Contains` : the constructs of a program, at any depth;
* `Span.Cuts` : the piece of a source that stands in an extent;
* `InOrder.within`, `InOrder.pairwise` : extents of tokens that stand in order;
* `Derivation.Occurs` : the tokens of a statement stand among others;
* `exists_clause_of_contains` : every construct of a program occurs in its derivation;
* `parse_locates` : the extents of a program's constructs, and what is read in them.
-/

namespace ModuleLoader.Script

open ModuleLoader.Script.Derivation (Expr Items More Clause Sentence)

/-! ## The constructs of a program -/

section
variable {α : Type}

def Expression.children : Expression α → List (Expression α)
  | .array items _ => items
  | .call _ arguments _ => arguments
  | .literal _ _ | .symbol _ _ | .reference _ _ => []

def Statement.children : Statement α → List (Expression α)
  | .evaluate e => e.children
  | .assign _ value _ => [value]

end

/-- The construct stands in the program, as a statement or somewhere inside one. An expression
inside one is taken as the statement that it makes. -/
inductive Program.Contains (program : Program) : Statement Literal → Prop
  | statement {s : Statement Literal} (h : s ∈ program.statements) : program.Contains s
  | child {s : Statement Literal} {e : Expression Literal} (h : program.Contains s)
    (he : e ∈ s.children) : program.Contains (.evaluate e)

/-- The piece stands in the source, from the beginning of the extent to its end. -/
def Span.Cuts (span : Span) (source piece : List Char) : Prop :=
  ∃ before behind, source = before ++ (piece ++ behind) ∧
    Position.origin.after before = span.start ∧
    Position.origin.after (before ++ piece) = span.stop

theorem Span.Cuts.unique {span : Span} {source piece other : List Char}
    (h : span.Cuts source piece) (hother : span.Cuts source other) : piece = other := by
  obtain ⟨before, behind, rfl, hstart, hstop⟩ := h
  obtain ⟨before', behind', hsource, hstart', hstop'⟩ := hother
  obtain rfl := Position.eq_of_after_eq hsource (hstart.trans hstart'.symm)
  rw [← List.append_assoc, ← List.append_assoc] at hsource
  have hpiece := Position.eq_of_after_eq hsource (hstop.trans hstop'.symm)
  exact List.append_cancel_left hpiece

/-! ## The extents of tokens in order -/

theorem exists_of_extent {tokens : List Token} {span : Span} (h : extent tokens = some span) :
    ∃ first last, tokens.head? = some first ∧ tokens.getLast? = some last ∧
      span = ⟨first.span.start, last.span.stop⟩ := by
  obtain ⟨first, hfirst, h⟩ := Option.bind_eq_some_iff.1 h
  obtain ⟨last, hlast, h⟩ := Option.bind_eq_some_iff.1 h
  exact ⟨first, last, hfirst, hlast, (Option.some.inj h).symm⟩

namespace InOrder

theorem start_le {tokens : List Token} (h : InOrder tokens) {first token : Token}
    (hfirst : tokens.head? = some first) (htoken : token ∈ tokens) :
    first.span.start ≤ token.span.start := by
  obtain ⟨more, rfl⟩ := List.head?_eq_some_iff.1 hfirst
  rcases List.mem_cons.1 htoken with rfl | hmore
  · exact le_refl _
  · have hbefore := (List.pairwise_cons.1 h.apart).1 token hmore
    exact (h.proper first List.mem_cons_self).trans hbefore

theorem le_stop {tokens : List Token} (h : InOrder tokens) {last token : Token}
    (hlast : tokens.getLast? = some last) (htoken : token ∈ tokens) :
    token.span.stop ≤ last.span.stop := by
  obtain ⟨others, rfl⟩ := List.getLast?_eq_some_iff.1 hlast
  rcases List.mem_append.1 htoken with hother | hlast
  · have hbefore := (List.pairwise_append.1 h.apart).2.2 token hother last (by simp)
    exact hbefore.trans (h.proper last (by simp))
  · rw [List.mem_singleton.1 hlast]

theorem within {s t : List Token} (h : InOrder t) (hsub : s.Sublist t) {a b : Span}
    (ha : extent s = some a) (hb : extent t = some b) : a.Within b := by
  obtain ⟨first, last, hfirst, hlast, rfl⟩ := exists_of_extent ha
  obtain ⟨first', last', hfirst', hlast', rfl⟩ := exists_of_extent hb
  exact ⟨h.start_le hfirst' (hsub.subset (List.mem_of_head? hfirst)),
    h.le_stop hlast' (hsub.subset (List.mem_of_getLast? hlast))⟩

theorem before {s t : List Token} (h : InOrder (s ++ t)) {a b : Span}
    (ha : extent s = some a) (hb : extent t = some b) : a.Before b := by
  obtain ⟨first, last, hfirst, hlast, rfl⟩ := exists_of_extent ha
  obtain ⟨first', last', hfirst', hlast', rfl⟩ := exists_of_extent hb
  exact (List.pairwise_append.1 h.apart).2.2 last (List.mem_of_getLast? hlast) first'
    (List.mem_of_head? hfirst')

theorem pairwise {β : Type} {tokens : β → List Token} {span : β → Span}
    (hspan : ∀ part, extent (tokens part) = some (span part)) {parts : List β}
    (h : InOrder (parts.flatMap tokens)) : (parts.map span).Pairwise Span.Before := by
  induction parts with
  | nil => exact .nil
  | cons part parts ih =>
    rw [List.flatMap_cons] at h
    refine List.pairwise_cons.2 ⟨?_, ih (h.sublist (List.sublist_append_right _ _))⟩
    intro behind hbehind
    obtain ⟨other, hother, rfl⟩ := List.mem_map.1 hbehind
    have hsub : (tokens other).Sublist (parts.flatMap tokens) :=
      List.sublist_flatten_of_mem (List.mem_map_of_mem hother)
    exact (h.sublist (hsub.append_left _)).before (hspan part) (hspan other)

end InOrder

/-! ## The parts of a derivation -/

namespace Derivation

def More.trees : More → List Expr
  | .done => []
  | .next _ item more => item :: more.trees

def Items.trees : Items → List Expr
  | .nothing => []
  | .items first more => first :: more.trees

def Expr.children : Expr → List Expr
  | .array _ items _ | .call _ _ _ items _ => items.trees
  | .literal _ _ | .symbol _ _ _ | .reference _ _ => []

def Clause.children : Clause → List Expr
  | .expression e => e.children
  | .assignment _ _ _ value => [value]

section
variable {α : Type} (value : Spelling → α)

theorem More.expressions_eq_map (more : More) :
    more.expressions value = more.trees.map (Expr.expression value) := by
  cases more with
  | done => rfl
  | next comma item more =>
    rw [More.expressions, More.trees, More.expressions_eq_map more, List.map_cons]

theorem Items.expressions_eq_map (items : Items) :
    items.expressions value = items.trees.map (Expr.expression value) := by
  cases items with
  | nothing => rfl
  | items first more =>
    rw [Items.expressions, Items.trees, more.expressions_eq_map, List.map_cons]

theorem Clause.children_statement (c : Clause) :
    (c.statement value).children = c.children.map (Expr.expression value) := by
  cases c with
  | expression e =>
    cases e with
    | literal spelling span => rfl
    | symbol quote name span => rfl
    | reference name span => rfl
    | array opening items closing => exact items.expressions_eq_map value
    | call name span opening items closing => exact items.expressions_eq_map value
  | assignment name span assign e => rfl

end

theorem More.exists_append {more : More} {e : Expr} (h : e ∈ more.trees) :
    ∃ pre post, more.tokens = pre ++ (e.tokens ++ post) ∧
      ∀ afterQuote, endsInQuote afterQuote pre = false := by
  cases more with
  | done => cases h
  | next comma item more =>
    rcases List.mem_cons.1 h with rfl | hmore
    · exact ⟨[⟨.comma, comma⟩], more.tokens, rfl, fun _ => rfl⟩
    · obtain ⟨pre, post, htokens, hpre⟩ := More.exists_append hmore
      refine ⟨⟨.comma, comma⟩ :: (item.tokens ++ pre), post, ?_, fun afterQuote => ?_⟩
      · simp only [More.tokens, htokens, List.cons_append, List.append_assoc]
      · exact (endsInQuote_append _ item.tokens pre).trans (hpre _)

/-- An item stands behind a bracket or a comma. -/
theorem Items.exists_append {items : Items} {e : Expr} (h : e ∈ items.trees) (opening : Token)
    (hopening : opening.lexeme ≠ .quote) :
    ∃ pre post, opening :: items.tokens = pre ++ (e.tokens ++ post) ∧
      ∀ afterQuote, endsInQuote afterQuote pre = false := by
  have hquote : (opening.lexeme == .quote) = false := beq_eq_false_iff_ne.2 hopening
  cases items with
  | nothing => cases h
  | items first more =>
    rcases List.mem_cons.1 h with rfl | hmore
    · exact ⟨[opening], more.tokens, rfl, fun _ => hquote⟩
    · obtain ⟨pre, post, htokens, hpre⟩ := More.exists_append hmore
      refine ⟨opening :: (first.tokens ++ pre), post, ?_, fun afterQuote => ?_⟩
      · simp only [Items.tokens, htokens, List.cons_append, List.append_assoc]
      · exact (endsInQuote_append _ first.tokens pre).trans (hpre _)

theorem Clause.exists_append {c : Clause} {e : Expr} (h : e ∈ c.children) :
    ∃ pre post, c.tokens = pre ++ (e.tokens ++ post) ∧
      ∀ afterQuote, endsInQuote afterQuote pre = false := by
  cases c with
  | expression whole =>
    cases whole with
    | literal spelling span => cases h
    | symbol quote name span => cases h
    | reference name span => cases h
    | array opening items closing =>
      obtain ⟨pre, post, htokens, hpre⟩ :=
        Items.exists_append h ⟨.openBracket, opening⟩ Lexeme.noConfusion
      refine ⟨pre, post ++ [⟨.closeBracket, closing⟩], ?_, hpre⟩
      rw [Clause.tokens, Expr.tokens, ← List.cons_append, htokens]
      simp only [List.append_assoc]
    | call name span opening items closing =>
      obtain ⟨pre, post, htokens, hpre⟩ :=
        Items.exists_append h ⟨.openParen, opening⟩ Lexeme.noConfusion
      refine ⟨⟨.name name, span⟩ :: pre, post ++ [⟨.closeParen, closing⟩], ?_, fun _ => hpre _⟩
      rw [Clause.tokens, Expr.tokens, ← List.cons_append, htokens]
      simp only [List.append_assoc, List.cons_append]
  | assignment name span assign value =>
    obtain rfl := List.mem_singleton.1 h
    exact ⟨[⟨.name name, span⟩, ⟨.assign, assign⟩], [], by simp [Clause.tokens], fun _ => rfl⟩

theorem More.trees_sublist (more : More) :
    (more.trees.flatMap Expr.tokens).Sublist more.tokens := by
  cases more with
  | done => exact .slnil
  | next comma item more => exact .cons _ ((More.trees_sublist more).append_left _)

theorem Items.trees_sublist (items : Items) :
    (items.trees.flatMap Expr.tokens).Sublist items.tokens := by
  cases items with
  | nothing => exact .slnil
  | items first more => exact more.trees_sublist.append_left _

theorem Clause.children_sublist (c : Clause) :
    (c.children.flatMap Expr.tokens).Sublist c.tokens := by
  cases c with
  | expression e =>
    cases e with
    | literal spelling span => exact List.nil_sublist _
    | symbol quote name span => exact List.nil_sublist _
    | reference name span => exact List.nil_sublist _
    | array opening items closing =>
      exact .cons _ (items.trees_sublist.trans (List.sublist_append_left _ _))
    | call name span opening items closing =>
      exact .cons _ (.cons _ (items.trees_sublist.trans (List.sublist_append_left _ _)))
  | assignment name span assign value =>
    rw [Clause.children, List.flatMap_singleton]
    exact .cons _ (.cons _ (List.Sublist.refl _))

theorem clauses_sublist (d : Derivation) :
    ((d.sentences.map Sentence.clause).flatMap Clause.tokens).Sublist d.tokens := by
  obtain ⟨sentences⟩ := d
  induction sentences with
  | nil => exact .slnil
  | cons s sentences ih => exact (List.sublist_append_left _ _).append ih

/-- The tokens of the statement stand among the tokens, and not behind a quote. -/
def Occurs (c : Clause) (tokens : List Token) : Prop :=
  ∃ pre post, tokens = pre ++ (c.tokens ++ post) ∧ endsInQuote false pre = false

theorem Occurs.child {c : Clause} {tokens : List Token} (h : Occurs c tokens) {e : Expr}
    (he : e ∈ c.children) : Occurs (.expression e) tokens := by
  obtain ⟨pre, post, rfl, -⟩ := h
  obtain ⟨inner, behind, htokens, hinner⟩ := Clause.exists_append he
  refine ⟨pre ++ inner, behind ++ post, ?_, ?_⟩
  · rw [htokens]
    simp only [Clause.tokens, List.append_assoc]
  · rw [endsInQuote_append, hinner]

theorem occurs_clause {d : Derivation} {s : Sentence} (h : s ∈ d.sentences) :
    Occurs s.clause d.tokens := by
  obtain ⟨sentences⟩ := d
  obtain ⟨before, behind, rfl⟩ := List.append_of_mem h
  refine ⟨before.flatMap Sentence.tokens, (s.semicolon.map (Token.mk .semicolon)).toList ++
    behind.flatMap Sentence.tokens, ?_, endsInQuote_sentences before⟩
  simp only [tokens, List.flatMap_append, List.flatMap_cons, Sentence.tokens, List.append_assoc]

end Derivation

open ModuleLoader.Script.Derivation (Occurs)

/-- Every construct of a program occurs in its derivation. -/
theorem exists_clause_of_contains {d : Derivation} {value : Spelling → Literal}
    {program : Program} (hprogram : program.statements = d.statements value)
    {node : Statement Literal} (h : program.Contains node) :
    ∃ c : Clause, Occurs c d.tokens ∧ node = c.statement value := by
  induction h with
  | statement hs =>
    rw [hprogram] at hs
    obtain ⟨sentence, hsentence, rfl⟩ := List.mem_map.1 hs
    exact ⟨sentence.clause, Derivation.occurs_clause hsentence, rfl⟩
  | child _ he ih =>
    obtain ⟨c, hc, rfl⟩ := ih
    rw [c.children_statement] at he
    obtain ⟨part, hpart, rfl⟩ := List.mem_map.1 he
    exact ⟨.expression part, hc.child hpart, rfl⟩

/-! ## What is read in an extent -/

/-- Where the tokens of a statement occur, the piece of the source that they reach over has these
tokens alone. -/
theorem exists_cut {source : List Char} {tokens : List Token} {c : Clause}
    (hsource : Tokens.ofText source = ⟨tokens, none⟩) (hoccurs : Occurs c tokens) {span : Span}
    (hspan : extent c.tokens = some span) :
    ∃ piece, span.Cuts source piece ∧
      Scanned false .origin piece (c.relocate (Position.since span.start)).tokens := by
  obtain ⟨pre, post, rfl, hpre⟩ := hoccurs
  -- The source is cut in front of the statement and behind it, and the trivia in front dropped.
  have hscanned : Scanned false .origin source (pre ++ (c.tokens ++ post)) :=
    scanned_iff.2 hsource
  obtain ⟨head, tail, rfl, -, htail, -, -⟩ := hscanned.split
  rw [hpre] at htail
  obtain ⟨middle, behind, rfl, hmiddle, -, -, hstop⟩ := htail.split
  obtain ⟨first, last, hfirst, hlast, rfl⟩ := exists_of_extent hspan
  obtain ⟨more, hmore⟩ := List.head?_eq_some_iff.1 hfirst
  rw [hmore] at hmiddle
  obtain ⟨gap, piece, rfl, hstart, hpiece⟩ := hmiddle.exists_start
  refine ⟨piece, ⟨head ++ gap, behind, by simp only [List.append_assoc], ?_, ?_⟩, ?_⟩
  · rw [Position.after_append]
    exact hstart
  · rw [List.append_assoc, Position.after_append]
    exact (hstop last hlast).symm
  · -- Counted from its own beginning, the piece has the same tokens.
    have hmoved := hpiece.relocate (carries_since _)
    rwa [Position.since_self, hstart, ← hmore, ← c.tokens_relocate] at hmoved

/-- The piece that a statement reaches over is read as this statement alone. -/
theorem parse_cut {source : List Char} {tokens : List Token} {c : Clause}
    {names : CharacterNames} {value : Spelling → Literal}
    (hsource : Tokens.ofText source = ⟨tokens, none⟩) (hvalues : Evaluates names value tokens)
    (hoccurs : Occurs c tokens) (file : String) :
    ∃ piece, (c.statement value).span.Cuts source piece ∧ ∃ alone,
      parse names file piece = .ok alone ∧
      alone.statements.map Statement.unlocated = [(c.statement value).unlocated] := by
  obtain ⟨piece, hcuts, hpiece⟩ := exists_cut hsource hoccurs (c.extent_tokens value)
  obtain ⟨pre, post, rfl, -⟩ := hoccurs
  set move := Position.since (c.statement value).span.start
  have htokens : Derivation.tokens ⟨[⟨c.relocate move, none⟩]⟩ = (c.relocate move).tokens := by
    simp [Derivation.tokens, Sentence.tokens]
  have hevaluates : Evaluates names value (c.relocate move).tokens := by
    rw [c.tokens_relocate]
    exact (evaluates_append.1 (evaluates_append.1 hvalues).2).1.relocate move
  rw [← htokens] at hpiece hevaluates
  refine ⟨piece, hcuts, _, parse_derivation value file (scanned_iff.1 hpiece) hevaluates, ?_⟩
  simp [Derivation.statements, Clause.statement_relocate]

/-- The extents of a program are exact. Its statements stand one behind another. Inside each of
its constructs, its parts stand one behind another; and one piece of the source reaches over the
construct, which is read as this construct alone. -/
theorem parse_locates (names : CharacterNames) (file : String) (source : List Char)
    (program : Program) (h : parse names file source = .ok program) :
    (program.statements.map Statement.span).Pairwise Span.Before ∧
    ∀ node, program.Contains node →
      (node.children.map Expression.span).Pairwise Span.Before ∧
      (∀ child ∈ node.children, child.span.Within node.span) ∧
      (∃ piece, node.span.Cuts source piece) ∧
      ∀ piece, node.span.Cuts source piece → ∃ alone, parse names file piece = .ok alone ∧
        alone.statements.map Statement.unlocated = [node.unlocated] := by
  obtain ⟨d, htokens, hvalues, rfl⟩ := exists_derivation h
  obtain ⟨horder, -⟩ := (scanned_iff.2 htokens).inOrder
  refine ⟨?_, fun node hnode => ?_⟩
  · have hstatements := InOrder.pairwise (Clause.extent_tokens (Spelling.value names))
      (horder.sublist d.clauses_sublist)
    simpa [Derivation.statements, Function.comp_def] using hstatements
  · obtain ⟨c, hoccurs, rfl⟩ := exists_clause_of_contains rfl hnode
    obtain ⟨piece, hcuts, hread⟩ := parse_cut htokens hvalues hoccurs file
    obtain ⟨pre, post, htext, -⟩ := hoccurs
    have hclause : InOrder c.tokens := by
      refine horder.sublist ?_
      rw [htext]
      exact (List.sublist_append_left _ _).trans (List.sublist_append_right _ _)
    rw [c.children_statement]
    refine ⟨?_, ?_, ⟨piece, hcuts⟩, fun other hother => hcuts.unique hother ▸ hread⟩
    · have hchildren := InOrder.pairwise (Expr.extent_tokens (Spelling.value names))
        (hclause.sublist c.children_sublist)
      simpa [Function.comp_def] using hchildren
    · intro child hchild
      obtain ⟨e, he, rfl⟩ := List.mem_map.1 hchild
      have hpart : e.tokens.Sublist (c.children.flatMap Expr.tokens) :=
        List.sublist_flatten_of_mem (List.mem_map_of_mem he)
      exact hclause.within (hpart.trans c.children_sublist) (e.extent_tokens _)
        (c.extent_tokens _)

theorem parse_locates_argument :
    parse bulletNamed "main" "f(\"\\N\x7bBULLET\x7d\")".toList =
      .ok ⟨"main", [.evaluate (.call "f" [.literal (.string "•") ⟨⟨1, 3⟩, ⟨1, 15⟩⟩]
        ⟨⟨1, 1⟩, ⟨1, 16⟩⟩)], some ⟨⟨1, 1⟩, ⟨1, 16⟩⟩⟩ ∧
    ∃ alone, parse bulletNamed "main" "\"\\N\x7bBULLET\x7d\"".toList = .ok alone ∧
      alone.statements.map Statement.unlocated =
        [.evaluate (.literal (.string "•") ⟨.origin, .origin⟩)] := by
  have htokens : Tokens.ofText "f(\"\\N\x7bBULLET\x7d\")".toList = ⟨Derivation.tokens
      ⟨[⟨.expression (.call ['f'] ⟨⟨1, 1⟩, ⟨1, 2⟩⟩ ⟨⟨1, 2⟩, ⟨1, 3⟩⟩
        (.items (.literal (.string "\\N\x7bBULLET\x7d".toList) ⟨⟨1, 3⟩, ⟨1, 15⟩⟩) .done)
        ⟨⟨1, 15⟩, ⟨1, 16⟩⟩), none⟩]⟩, none⟩ := by
    decide +kernel
  have h := @parse_derivation bulletNamed (fun _ => .string "•") "main" _ _ htokens
    (by decide +kernel)
  have hcuts : Span.Cuts ⟨⟨1, 3⟩, ⟨1, 15⟩⟩ "f(\"\\N\x7bBULLET\x7d\")".toList
      "\"\\N\x7bBULLET\x7d\"".toList :=
    ⟨['f', '('], [')'], by decide, by decide, by decide⟩
  have hargument := (parse_locates bulletNamed "main" _ _ h).2 _
    (.child (.statement (List.mem_singleton.2 rfl)) (List.mem_singleton.2 rfl))
  exact ⟨h, hargument.2.2.2 _ hcuts⟩

end ModuleLoader.Script
