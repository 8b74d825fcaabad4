import Mathlib.Logic.Relation
import ModuleLoader.Proofs.Acceptance

/-!
# The layout of a source

Where blanks, comments and semicolons stand does not matter.

* `Inserted`, `Loosens` : blanks and comments, or a semicolon, more in a source;
* `SameLexemes` : tokens that differ in their places only;
* `Trivia.stops` : no name and no number goes on through blanks and comments;
* `Scanned.elsewhere`, `Scanned.extend` : the same lexemes in another place and in front of others;
* `exists_of_relocate` : tokens that differ from those of a derivation in their places only have
  a derivation that differs in them only;
* `parse_of_lexemes`, `Loosens.parse` : the lexemes decide about the program, and one insertion
  does not change it;
* `parse_loosened` : any number of insertions does not change it.
-/

namespace ModuleLoader.Script

open ModuleLoader.Script.Derivation (Expr Items More Clause Sentence)

/-- The other source is this one with a text more at the place. -/
def Inserted (place : Position) (text source other : List Char) : Prop :=
  ∃ before behind, source = before ++ behind ∧ other = before ++ (text ++ behind) ∧
    Position.origin.after before = place

/-- The other source has blanks and comments more, at the start or behind a token, or a semicolon
more behind a statement that has none. -/
inductive Loosens (source other : List Char) : Prop
  | start {gap : List Char} (trivia : Trivia false gap false)
    (inserted : Inserted .origin gap source other)
  | token {gap : List Char} {token : Token} (trivia : Trivia false gap false)
    (mem : token ∈ (Tokens.ofText source).tokens)
    (inserted : Inserted token.span.stop gap source other)
  | semicolon {d : Derivation} {s : Sentence} {token : Token}
    (derived : Tokens.ofText source = ⟨d.tokens, none⟩) (mem : s ∈ d.sentences)
    (missing : s.semicolon = none) (last : s.clause.tokens.getLast? = some token)
    (inserted : Inserted token.span.stop [';'] source other)

/-! ## The same lexemes -/

/-- The tokens are the same up to where they stand. -/
def SameLexemes (tokens others : List Token) : Prop :=
  tokens.map Token.lexeme = others.map Token.lexeme

theorem SameLexemes.append {s t s' t' : List Token} (hs : SameLexemes s s')
    (ht : SameLexemes t t') : SameLexemes (s ++ t) (s' ++ t') := by
  unfold SameLexemes at *
  rw [List.map_append, List.map_append, hs, ht]

theorem SameLexemes.relocate {tokens others : List Token} (h : SameLexemes tokens others) :
    tokens.map (Token.relocate fun _ => .origin) =
      others.map (Token.relocate fun _ => .origin) := by
  have hmap := congrArg (List.map (fun lexeme => Token.mk lexeme ⟨.origin, .origin⟩)) h
  rw [List.map_map, List.map_map] at hmap
  exact hmap

theorem Evaluates.of_sameLexemes {names : CharacterNames} {value : Spelling → Literal}
    {tokens others : List Token} (h : Evaluates names value others)
    (hsame : SameLexemes tokens others) : Evaluates names value tokens := by
  intro token htoken spelling hspelling
  have hlexeme : token.lexeme ∈ others.map Token.lexeme := hsame ▸ List.mem_map_of_mem htoken
  obtain ⟨other, hother, heq⟩ := List.mem_map.1 hlexeme
  exact h other hother spelling (heq ▸ hspelling)

/-! ## Texts in front of others and in other places -/

theorem Trivia.stops {gap : List Char} (h : Trivia false gap false) (hne : gap ≠ [])
    (rest : List Char) : Stops (gap ++ rest) := by
  cases h with
  | nothing => exact absurd rfl hne
  | blank hblank _ =>
    refine stops_cons ?_
    simp only [isBlank, Bool.or_eq_true, beq_iff_eq] at hblank
    rcases hblank with (((rfl | rfl) | rfl) | rfl) | rfl <;> decide
  | slashes _ => exact stops_cons (by decide)

namespace Scanned
variable {afterQuote : Bool} {p : Position} {text more : List Char} {tokens others : List Token}

theorem elsewhere (h : Scanned afterQuote p text tokens) (q : Position) :
    ∃ others, Scanned afterQuote q text others ∧ SameLexemes others tokens := by
  induction h generalizing q with
  | done trivia => exact ⟨[], .done trivia, rfl⟩
  | @token afterQuote p gap rest lexeme tokens trivia read more ih =>
    obtain ⟨others, hrest, hsame⟩ := ih ((q.after gap).after lexeme.text)
    exact ⟨_, .token trivia read hrest, congrArg (lexeme :: ·) hsame⟩

theorem extend (h : Scanned afterQuote p text tokens) (hnil : tokens = [] → text = [])
    (hstop : ∀ token ∈ tokens.getLast?, token.span.stop = p.after text)
    (hmore : Scanned (endsInQuote afterQuote tokens) (p.after text) more others)
    (hstops : Stops more) : Scanned afterQuote p (text ++ more) (tokens ++ others) := by
  induction h with
  | done trivia =>
    rw [hnil rfl] at hmore ⊢
    exact hmore
  | @token afterQuote p gap rest lexeme tokens trivia read tail ih =>
    have hplace : p.after (gap ++ (lexeme.text ++ rest)) =
        ((p.after gap).after lexeme.text).after rest := by
      rw [Position.after_append, Position.after_append]
    rw [hplace] at hstop hmore
    have hread := lexeme?_append_of_stops read hstops
    rw [List.append_assoc] at hread
    rw [List.append_assoc, List.append_assoc]
    refine .token trivia hread (ih ?_ (fun last hlast => ?_) hmore)
    · rintro rfl
      exact Position.after_eq_self_iff.1 (hstop _ rfl).symm
    · obtain ⟨next, others, rfl⟩ := List.exists_cons_of_ne_nil (List.ne_nil_of_mem
        (List.mem_of_getLast? hlast))
      exact hstop last hlast

end Scanned

/-! ## Derivations from their lexemes -/

namespace Derivation
variable {move : Position → Position}

mutual
/-- Tokens that a move takes to those of an expression have a derivation that it takes to this
one. -/
theorem Expr.exists_of_relocate (e : Expr) {tokens : List Token}
    (h : tokens.map (Token.relocate move) = e.tokens) :
    ∃ e' : Expr, e'.relocate move = e ∧ e'.tokens = tokens := by
  cases e with
  | literal spelling span =>
    obtain ⟨⟨_, s⟩, rfl, hs⟩ := List.map_eq_singleton_iff.1 h
    cases hs
    exact ⟨.literal spelling s, rfl, rfl⟩
  | symbol quote name span =>
    obtain ⟨⟨_, q⟩, rest, rfl, hq, hrest⟩ := List.map_eq_cons_iff.1 h
    obtain ⟨⟨_, s⟩, rfl, hs⟩ := List.map_eq_singleton_iff.1 hrest
    cases hq
    cases hs
    exact ⟨.symbol q name s, rfl, rfl⟩
  | reference name span =>
    obtain ⟨⟨_, s⟩, rfl, hs⟩ := List.map_eq_singleton_iff.1 h
    cases hs
    exact ⟨.reference name s, rfl, rfl⟩
  | array opening items closing =>
    obtain ⟨⟨_, o⟩, rest, rfl, ho, hrest⟩ := List.map_eq_cons_iff.1 h
    obtain ⟨inner, last, rfl, hinner, hlast⟩ := List.map_eq_append_iff.1 hrest
    obtain ⟨⟨_, c⟩, rfl, hc⟩ := List.map_eq_singleton_iff.1 hlast
    obtain ⟨items', rfl, rfl⟩ := items.exists_of_relocate hinner
    cases ho
    cases hc
    exact ⟨.array o items' c, rfl, rfl⟩
  | call name span opening items closing =>
    obtain ⟨⟨_, s⟩, behind, rfl, hs, hbehind⟩ := List.map_eq_cons_iff.1 h
    obtain ⟨⟨_, o⟩, rest, rfl, ho, hrest⟩ := List.map_eq_cons_iff.1 hbehind
    obtain ⟨inner, last, rfl, hinner, hlast⟩ := List.map_eq_append_iff.1 hrest
    obtain ⟨⟨_, c⟩, rfl, hc⟩ := List.map_eq_singleton_iff.1 hlast
    obtain ⟨items', rfl, rfl⟩ := items.exists_of_relocate hinner
    cases hs
    cases ho
    cases hc
    exact ⟨.call name s o items' c, rfl, rfl⟩

theorem Items.exists_of_relocate (items : Items) {tokens : List Token}
    (h : tokens.map (Token.relocate move) = items.tokens) :
    ∃ items' : Items, items'.relocate move = items ∧ items'.tokens = tokens := by
  cases items with
  | nothing =>
    obtain rfl := List.map_eq_nil_iff.1 h
    exact ⟨.nothing, rfl, rfl⟩
  | items first more =>
    obtain ⟨head, rest, rfl, hhead, hrest⟩ := List.map_eq_append_iff.1 h
    obtain ⟨first', rfl, rfl⟩ := first.exists_of_relocate hhead
    obtain ⟨more', rfl, rfl⟩ := more.exists_of_relocate hrest
    exact ⟨.items first' more', rfl, rfl⟩

theorem More.exists_of_relocate (more : More) {tokens : List Token}
    (h : tokens.map (Token.relocate move) = more.tokens) :
    ∃ more' : More, more'.relocate move = more ∧ more'.tokens = tokens := by
  cases more with
  | done =>
    obtain rfl := List.map_eq_nil_iff.1 h
    exact ⟨.done, rfl, rfl⟩
  | next comma item more =>
    obtain ⟨⟨_, c⟩, rest, rfl, hc, hrest⟩ := List.map_eq_cons_iff.1 h
    obtain ⟨head, others, rfl, hhead, hothers⟩ := List.map_eq_append_iff.1 hrest
    obtain ⟨item', rfl, rfl⟩ := item.exists_of_relocate hhead
    obtain ⟨more', rfl, rfl⟩ := more.exists_of_relocate hothers
    cases hc
    exact ⟨.next c item' more', rfl, rfl⟩
end

theorem Clause.exists_of_relocate (c : Clause) {tokens : List Token}
    (h : tokens.map (Token.relocate move) = c.tokens) :
    ∃ c' : Clause, c'.relocate move = c ∧ c'.tokens = tokens := by
  cases c with
  | expression e =>
    obtain ⟨e', rfl, rfl⟩ := e.exists_of_relocate h
    exact ⟨.expression e', rfl, rfl⟩
  | assignment name span assign value =>
    obtain ⟨⟨_, s⟩, behind, rfl, hs, hbehind⟩ := List.map_eq_cons_iff.1 h
    obtain ⟨⟨_, a⟩, rest, rfl, ha, hrest⟩ := List.map_eq_cons_iff.1 hbehind
    obtain ⟨value', rfl, rfl⟩ := value.exists_of_relocate hrest
    cases hs
    cases ha
    exact ⟨.assignment name s a value', rfl, rfl⟩

theorem Sentence.exists_of_relocate (s : Sentence) {tokens : List Token}
    (h : tokens.map (Token.relocate move) = s.tokens) :
    ∃ s' : Sentence, s'.relocate move = s ∧ s'.tokens = tokens := by
  obtain ⟨clause, semicolon⟩ := s
  obtain ⟨head, last, rfl, hhead, hlast⟩ := List.map_eq_append_iff.1 h
  obtain ⟨clause', rfl, rfl⟩ := clause.exists_of_relocate hhead
  cases semicolon with
  | none =>
    obtain rfl := List.map_eq_nil_iff.1 hlast
    exact ⟨⟨clause', none⟩, rfl, rfl⟩
  | some span =>
    obtain ⟨⟨_, s⟩, rfl, hs⟩ := List.map_eq_singleton_iff.1 hlast
    cases hs
    exact ⟨⟨clause', some s⟩, rfl, rfl⟩

/-- Tokens that a move takes to those of a derivation have one that it takes to this one. -/
theorem exists_of_relocate (d : Derivation) {tokens : List Token}
    (h : tokens.map (Token.relocate move) = d.tokens) :
    ∃ d' : Derivation, d'.relocate move = d ∧ d'.tokens = tokens := by
  obtain ⟨sentences⟩ := d
  induction sentences generalizing tokens with
  | nil =>
    obtain rfl := List.map_eq_nil_iff.1 h
    exact ⟨⟨[]⟩, rfl, rfl⟩
  | cons s sentences ih =>
    obtain ⟨head, rest, rfl, hhead, hrest⟩ := List.map_eq_append_iff.1 h
    obtain ⟨s', rfl, rfl⟩ := s.exists_of_relocate hhead
    obtain ⟨d', hd', rfl⟩ := ih hrest
    refine ⟨⟨s' :: d'.sentences⟩, ?_, rfl⟩
    exact congrArg (fun d => Derivation.mk (s'.relocate move :: d.sentences)) hd'

end Derivation

/-- The lexemes of a source decide about its program. -/
theorem parse_of_lexemes (file : String) {source : List Char} {tokens : List Token}
    {d : Derivation} {names : CharacterNames} {value : Spelling → Literal}
    (h : Tokens.ofText source = ⟨tokens, none⟩) (hsame : SameLexemes tokens d.tokens)
    (hvalues : Evaluates names value d.tokens) :
    ∃ q, parse names file source = .ok q ∧
      q.unlocated = ⟨file, (d.statements value).map Statement.unlocated, none⟩ := by
  -- Without their places the tokens are those of `d`, which is a derivation without its places.
  have hlifted := hsame.relocate
  rw [← Derivation.tokens_relocate] at hlifted
  obtain ⟨d', hd', rfl⟩ := Derivation.exists_of_relocate _ hlifted
  refine ⟨_, parse_derivation value file h (hvalues.of_sameLexemes hsame), ?_⟩
  have hstatements : (d'.statements value).map Statement.unlocated =
      (d.statements value).map Statement.unlocated := by
    have hrelocated := congrArg (fun d => d.statements value) hd'
    simp only [Derivation.statements_relocate] at hrelocated
    exact hrelocated
  rw [Program.unlocated, hstatements]

/-! ## Insertions -/

theorem Inserted.cut {text source other : List Char} {first others : List Token} {token : Token}
    (h : Inserted token.span.stop text source other) (hlast : first.getLast? = some token)
    (hsource : Tokens.ofText source = ⟨first ++ others, none⟩) :
    ∃ before behind, other = before ++ (text ++ behind) ∧
      Scanned false .origin before first ∧
      Scanned (endsInQuote false first) (Position.origin.after before) behind others ∧
      ∀ token ∈ first.getLast?, token.span.stop = Position.origin.after before := by
  obtain ⟨before, behind, rfl, rfl, hplace⟩ := h
  obtain ⟨head, tail, htext, hhead, htail, -, hstop⟩ := (scanned_iff.2 hsource).split
  obtain rfl : before = head :=
    Position.eq_of_after_eq htext (hplace.trans (hstop token hlast))
  obtain rfl := List.append_cancel_left htext
  exact ⟨before, behind, rfl, hhead, htail, hstop⟩

/-- Blanks and comments behind a token leave the lexemes as they are. -/
theorem Inserted.behind_token {gap source other : List Char} {tokens : List Token} {token : Token}
    (h : Inserted token.span.stop gap source other) (hgap : Trivia false gap false)
    (hsource : Tokens.ofText source = ⟨tokens, none⟩) (hmem : token ∈ tokens) :
    ∃ others, Tokens.ofText other = ⟨others, none⟩ ∧ SameLexemes others tokens := by
  by_cases hne : gap = []
  · subst hne
    obtain ⟨before, behind, rfl, rfl, -⟩ := h
    exact ⟨tokens, hsource, rfl⟩
  · obtain ⟨earlier, later, rfl⟩ := List.append_of_mem hmem
    rw [List.append_cons] at hsource ⊢
    obtain ⟨before, behind, rfl, hbefore, hbehind, hstop⟩ := h.cut List.getLast?_concat hsource
    obtain ⟨moved, hmoved, hsame⟩ := hbehind.elsewhere ((Position.origin.after before).after gap)
    have hwhole := hbefore.extend (by simp) hstop (hmoved.prepend hgap) (hgap.stops hne behind)
    exact ⟨_, scanned_iff.1 hwhole, SameLexemes.append rfl hsame⟩

/-- Blanks and comments at the start leave the lexemes as they are. -/
theorem Inserted.at_start {gap source other : List Char} {tokens : List Token}
    (h : Inserted .origin gap source other) (hgap : Trivia false gap false)
    (hsource : Tokens.ofText source = ⟨tokens, none⟩) :
    ∃ others, Tokens.ofText other = ⟨others, none⟩ ∧ SameLexemes others tokens := by
  obtain ⟨before, behind, rfl, rfl, hplace⟩ := h
  obtain rfl := Position.after_eq_self_iff.1 hplace
  obtain ⟨moved, hmoved, hsame⟩ := (scanned_iff.2 hsource).elsewhere (Position.origin.after gap)
  exact ⟨moved, scanned_iff.1 (hmoved.prepend hgap), hsame⟩

/-- A semicolon behind a statement that has none belongs to the statement. -/
theorem Inserted.behind_statement {source other : List Char} {a b : List Sentence} {c : Clause}
    {token : Token} (h : Inserted token.span.stop [';'] source other)
    (hlast : c.tokens.getLast? = some token)
    (hsource : Tokens.ofText source = ⟨Derivation.tokens ⟨a ++ ⟨c, none⟩ :: b⟩, none⟩) :
    ∃ span others, Tokens.ofText other = ⟨others, none⟩ ∧
      SameLexemes others (Derivation.tokens ⟨a ++ ⟨c, some span⟩ :: b⟩) := by
  have hbare : Derivation.tokens ⟨a ++ ⟨c, none⟩ :: b⟩ =
      (a.flatMap Sentence.tokens ++ c.tokens) ++ b.flatMap Sentence.tokens := by
    simp [Derivation.tokens, Sentence.tokens]
  have hclosed (span : Span) : Derivation.tokens ⟨a ++ ⟨c, some span⟩ :: b⟩ =
      (a.flatMap Sentence.tokens ++ c.tokens) ++
        ⟨.semicolon, span⟩ :: b.flatMap Sentence.tokens := by
    simp [Derivation.tokens, Sentence.tokens]
  have hends : (a.flatMap Sentence.tokens ++ c.tokens).getLast? = some token := by
    simp [hlast]
  rw [hbare] at hsource
  obtain ⟨before, behind, rfl, hbefore, hbehind, hstop⟩ := h.cut hends hsource
  have hopen : endsInQuote false (a.flatMap Sentence.tokens ++ c.tokens) = false := by
    rw [endsInQuote_append, c.endsInQuote_tokens]
  rw [hopen] at hbehind
  obtain ⟨moved, hmoved, hsame⟩ :=
    hbehind.elsewhere ((Position.origin.after before).after [';'])
  have hread : lexeme? false (Lexeme.semicolon.text ++ behind) = some (.semicolon, behind) := rfl
  have hwhole := hbefore.extend (fun hnil => by simp [hnil] at hends) hstop
    (hopen ▸ Scanned.lexeme hread hmoved) (stops_cons (by decide))
  refine ⟨⟨Position.origin.after before, (Position.origin.after before).after [';']⟩, _,
    scanned_iff.1 hwhole, ?_⟩
  rw [hclosed]
  exact SameLexemes.append rfl (congrArg (Lexeme.semicolon :: ·) hsame)

section
variable {source other : List Char} {names : CharacterNames} {value : Spelling → Literal}

theorem evaluates_semicolon {a b : List Sentence} {c : Clause} (semicolon : Option Span)
    (h : Evaluates names value (Derivation.tokens ⟨a ++ ⟨c, none⟩ :: b⟩)) :
    Evaluates names value (Derivation.tokens ⟨a ++ ⟨c, semicolon⟩ :: b⟩) := by
  simp only [Derivation.tokens, List.flatMap_append, List.flatMap_cons, evaluates_append,
    Sentence.evaluates_iff] at h ⊢
  exact h

/-- One insertion leaves a source that is written by the same rules for the same statements. -/
theorem Loosens.exists_derivation {d : Derivation} (h : Loosens source other)
    (hsource : Tokens.ofText source = ⟨d.tokens, none⟩) (hvalues : Evaluates names value d.tokens) :
    ∃ (d' : Derivation) (tokens : List Token), Tokens.ofText other = ⟨tokens, none⟩ ∧
      SameLexemes tokens d'.tokens ∧ Evaluates names value d'.tokens ∧
      d'.statements value = d.statements value := by
  cases h with
  | start trivia inserted =>
    obtain ⟨tokens, hother, hsame⟩ := inserted.at_start trivia hsource
    exact ⟨d, tokens, hother, hsame, hvalues, rfl⟩
  | token trivia mem inserted =>
    rw [hsource] at mem
    obtain ⟨tokens, hother, hsame⟩ := inserted.behind_token trivia hsource mem
    exact ⟨d, tokens, hother, hsame, hvalues, rfl⟩
  | @semicolon d₀ s token derived mem missing last inserted =>
    rw [hsource] at derived
    -- The statement belongs to the one derivation there is.
    obtain rfl := Derivation.tokens_injective (Tokens.mk.inj derived).1
    obtain ⟨sentences⟩ := d
    obtain ⟨c, _⟩ := s
    obtain rfl := missing
    obtain ⟨a, b, rfl⟩ := List.append_of_mem mem
    obtain ⟨span, tokens, hother, hsame⟩ := inserted.behind_statement last hsource
    refine ⟨_, tokens, hother, hsame, evaluates_semicolon _ hvalues, ?_⟩
    simp [Derivation.statements]

/-- One insertion leaves the program as it is. -/
theorem Loosens.parse {file : String} {program : Program} (h : Loosens source other)
    (hparse : Script.parse names file source = .ok program) :
    ∃ q, Script.parse names file other = .ok q ∧ q.unlocated = program.unlocated := by
  obtain ⟨d, hsource, hvalues, rfl⟩ := Script.exists_derivation hparse
  obtain ⟨d', tokens, hother, hsame, hvalues', hstatements⟩ := h.exists_derivation hsource hvalues
  obtain ⟨q, hq, hunlocated⟩ := parse_of_lexemes file hother hsame hvalues'
  exact ⟨q, hq, by rw [hunlocated, hstatements, Program.unlocated]⟩

end

/-- The layout of a program does not matter: blanks and comments at the start and behind tokens,
and semicolons behind statements that have none, leave the program as it is but for the places in
it. -/
theorem parse_loosened (names : CharacterNames) (file : String) (source other : List Char)
    (program : Program) (hparse : parse names file source = .ok program)
    (h : Relation.ReflTransGen Loosens source other) :
    ∃ q, parse names file other = .ok q ∧ q.unlocated = program.unlocated := by
  induction h with
  | refl => exact ⟨program, hparse, rfl⟩
  | tail _ hstep ih =>
    obtain ⟨p, hp, hsame⟩ := ih
    obtain ⟨q, hq, hstep⟩ := hstep.parse hp
    exact ⟨q, hq, hstep.trans hsame⟩

/-- A comment between a quote and its name, and a semicolon in front of another statement. -/
theorem parse_loosened_quote :
    parse bulletNamed "main" "f('nil)\"\\N\x7bBULLET\x7d\"".toList =
      .ok ⟨"main", [.evaluate (.call "f" [.symbol "nil" ⟨⟨1, 3⟩, ⟨1, 7⟩⟩] ⟨⟨1, 1⟩, ⟨1, 8⟩⟩),
        .evaluate (.literal (.string "•") ⟨⟨1, 8⟩, ⟨1, 20⟩⟩)], some ⟨⟨1, 1⟩, ⟨1, 20⟩⟩⟩ ∧
    Relation.ReflTransGen Loosens "f('nil)\"\\N\x7bBULLET\x7d\"".toList
      "f('//\nnil);\"\\N\x7bBULLET\x7d\"".toList ∧
    ∃ q, parse bulletNamed "main" "f('//\nnil);\"\\N\x7bBULLET\x7d\"".toList = .ok q ∧
      q.unlocated = Program.unlocated
        ⟨"main", [.evaluate (.call "f" [.symbol "nil" ⟨⟨1, 3⟩, ⟨1, 7⟩⟩] ⟨⟨1, 1⟩, ⟨1, 8⟩⟩),
          .evaluate (.literal (.string "•") ⟨⟨1, 8⟩, ⟨1, 20⟩⟩)], some ⟨⟨1, 1⟩, ⟨1, 20⟩⟩⟩ := by
  have hsource : Tokens.ofText "f('nil)\"\\N\x7bBULLET\x7d\"".toList = ⟨Derivation.tokens
      ⟨[⟨.expression (.call ['f'] ⟨⟨1, 1⟩, ⟨1, 2⟩⟩ ⟨⟨1, 2⟩, ⟨1, 3⟩⟩
          (.items (.symbol ⟨⟨1, 3⟩, ⟨1, 4⟩⟩ ['n', 'i', 'l'] ⟨⟨1, 4⟩, ⟨1, 7⟩⟩) .done)
          ⟨⟨1, 7⟩, ⟨1, 8⟩⟩), none⟩,
        ⟨.expression (.literal (.string "\\N\x7bBULLET\x7d".toList) ⟨⟨1, 8⟩, ⟨1, 20⟩⟩), none⟩]⟩,
      none⟩ := by
    decide +kernel
  have hcommented : Tokens.ofText "f('//\nnil)\"\\N\x7bBULLET\x7d\"".toList =
      ⟨Derivation.tokens
        ⟨[⟨.expression (.call ['f'] ⟨⟨1, 1⟩, ⟨1, 2⟩⟩ ⟨⟨1, 2⟩, ⟨1, 3⟩⟩
            (.items (.symbol ⟨⟨1, 3⟩, ⟨1, 4⟩⟩ ['n', 'i', 'l'] ⟨⟨2, 1⟩, ⟨2, 4⟩⟩) .done)
            ⟨⟨2, 4⟩, ⟨2, 5⟩⟩), none⟩,
          ⟨.expression (.literal (.string "\\N\x7bBULLET\x7d".toList) ⟨⟨2, 5⟩, ⟨2, 17⟩⟩), none⟩]⟩,
        none⟩ := by
    decide +kernel
  have hcomment : Loosens "f('nil)\"\\N\x7bBULLET\x7d\"".toList
      "f('//\nnil)\"\\N\x7bBULLET\x7d\"".toList :=
    @Loosens.token _ _ "//\n".toList ⟨.quote, ⟨1, 3⟩, ⟨1, 4⟩⟩
      (by exact .slashes (.comment (.comment .nothing))) (by rw [hsource]; decide)
      ⟨"f('".toList, "nil)\"\\N\x7bBULLET\x7d\"".toList, by decide, by decide, by decide⟩
  have hsemicolon : Loosens "f('//\nnil)\"\\N\x7bBULLET\x7d\"".toList
      "f('//\nnil);\"\\N\x7bBULLET\x7d\"".toList :=
    .semicolon hcommented List.mem_cons_self rfl rfl
      ⟨"f('//\nnil)".toList, "\"\\N\x7bBULLET\x7d\"".toList, by decide, by decide, by decide⟩
  have hparse := @parse_derivation bulletNamed (fun _ => .string "•") "main" _ _ hsource
    (by decide +kernel)
  have hloosened := (Relation.ReflTransGen.single hcomment).tail hsemicolon
  exact ⟨hparse, hloosened, parse_loosened bulletNamed "main" _ _ _ hparse hloosened⟩

end ModuleLoader.Script
