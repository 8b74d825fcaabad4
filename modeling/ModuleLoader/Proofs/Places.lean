import Mathlib.Order.Basic
import ModuleLoader.Script.Parse

/-!
# The places of tokens and constructs

* positions are ordered as they follow each other in a text (`Position.le_after`);
* `Span.Before`, `Span.Within` : extents one behind another and one inside another;
* `Carries` : a move of positions that keeps their distances in a text; two moves that do are
  `Position.down`, by a number of lines, and `Position.since`, to a text that begins elsewhere;
* `Token.relocate`, `Expression.relocate`, `Statement.relocate` : the same construct in other
  places;
* `Expression.unlocated`, `Statement.unlocated`, `Program.unlocated` : the construct without its
  places.
-/

namespace ModuleLoader.Script

/-! ## The order of positions -/

namespace Position

instance : Preorder Position where
  le p q := p.line < q.line ∨ p.line = q.line ∧ p.column ≤ q.column
  le_refl p := Or.inr ⟨rfl, Nat.le_refl _⟩
  le_trans p q r hpq hqr := by
    rcases hpq with hpq | hpq <;> rcases hqr with hqr | hqr <;> omega

theorem le_iff {p q : Position} :
    p ≤ q ↔ p.line < q.line ∨ p.line = q.line ∧ p.column ≤ q.column :=
  Iff.rfl

theorem le_next (p : Position) (c : Char) : p ≤ p.next c := by
  rw [le_iff, next]
  split
  · exact Or.inl (Nat.lt_succ_self _)
  · exact Or.inr ⟨rfl, Nat.le_succ _⟩

theorem le_after (p : Position) (text : List Char) : p ≤ p.after text := by
  induction text generalizing p with
  | nil => exact le_refl p
  | cons c text ih => exact (le_next p c).trans (ih (p.next c))

theorem after_eq_self_iff {p : Position} {text : List Char} : p.after text = p ↔ text = [] := by
  cases text with
  | nil => simp
  | cons c text =>
    have hbehind := (p.next c).le_after text
    have hnext : ¬ p.next c ≤ p := by
      rw [le_iff, next]
      split <;> simp
    refine iff_of_false (fun h => hnext ?_) (List.cons_ne_nil c text)
    rwa [← after_cons, h] at hbehind

theorem eq_of_after_eq {p : Position} {s t s' t' : List Char} (h : s ++ t = s' ++ t')
    (hp : p.after s = p.after s') : s = s' := by
  rcases List.append_eq_append_iff.1 h with ⟨more, rfl, -⟩ | ⟨more, rfl, -⟩
  · rw [after_append] at hp
    rw [after_eq_self_iff.1 hp.symm, List.append_nil]
  · rw [after_append] at hp
    rw [after_eq_self_iff.1 hp, List.append_nil]

/-! ## Moves of positions -/

def down (lines : Nat) (p : Position) : Position := ⟨p.line + lines, p.column⟩

/-- The position as it is counted from another one, which becomes the origin. -/
def since (first p : Position) : Position :=
  if p.line = first.line then ⟨1, p.column - first.column + 1⟩
  else ⟨p.line - first.line + 1, p.column⟩

end Position

/-- The first extent ends before the second begins. -/
def Span.Before (a b : Span) : Prop := a.stop ≤ b.start

/-- The first extent lies inside the second. -/
def Span.Within (a b : Span) : Prop := b.start ≤ a.start ∧ a.stop ≤ b.stop

/-- The move takes the places in a text that begins at `p` to those in the same text where it
begins at the moved `p`. -/
def Carries (move : Position → Position) (p : Position) : Prop :=
  ∀ text, move (p.after text) = (move p).after text

theorem Carries.after {move : Position → Position} {p : Position} (h : Carries move p)
    (text : List Char) : Carries move (p.after text) := by
  intro more
  rw [← Position.after_append, h, h, Position.after_append]

theorem carries_down (lines : Nat) (p : Position) : Carries (Position.down lines) p := by
  intro text
  induction text generalizing p with
  | nil => rfl
  | cons c text ih =>
    have hnext : (p.down lines).next c = (p.next c).down lines := by
      unfold Position.next
      split
      · simp only [Position.down]
        congr 1
        omega
      · rfl
    rw [Position.after_cons, Position.after_cons, hnext]
    exact ih (p.next c)

theorem Position.since_self (first : Position) : Position.since first first = .origin := by
  simp [Position.since, Position.origin]

theorem Position.since_next {first p : Position} (h : first ≤ p) (c : Char) :
    Position.since first (p.next c) = (Position.since first p).next c := by
  rw [Position.le_iff] at h
  unfold Position.since Position.next
  by_cases hc : c = '\n'
  · have hbelow : p.line + 1 ≠ first.line := by omega
    have hline : p.line + 1 - first.line = p.line - first.line + 1 := by omega
    rw [if_pos hc, if_pos hc, if_neg hbelow, hline]
    split_ifs with hsame
    · rw [hsame, Nat.sub_self]
    · rfl
  · rw [if_neg hc, if_neg hc]
    dsimp only
    split_ifs with hsame
    · have hcolumn : p.column + 1 - first.column = p.column - first.column + 1 := by omega
      rw [hcolumn]
    · rfl

theorem carries_since (first : Position) : Carries (Position.since first) first := by
  have hbehind (p : Position) (h : first ≤ p) : Carries (Position.since first) p := by
    intro text
    induction text generalizing p with
    | nil => rfl
    | cons c text ih =>
      rw [Position.after_cons, Position.after_cons, ← Position.since_next h]
      exact ih (p.next c) (h.trans (p.le_next c))
  exact hbehind first (le_refl first)

/-! ## Constructs in other places -/

def Span.relocate (move : Position → Position) (span : Span) : Span :=
  ⟨move span.start, move span.stop⟩

def Token.relocate (move : Position → Position) (token : Token) : Token :=
  ⟨token.lexeme, token.span.relocate move⟩

mutual
def Expression.relocate {α : Type} (move : Position → Position) : Expression α → Expression α
  | .literal value span => .literal value (span.relocate move)
  | .symbol name span => .symbol name (span.relocate move)
  | .array items span => .array (relocateAll move items) (span.relocate move)
  | .reference name span => .reference name (span.relocate move)
  | .call name arguments span =>
    .call name (relocateAll move arguments) (span.relocate move)

def relocateAll {α : Type} (move : Position → Position) :
    List (Expression α) → List (Expression α)
  | [] => []
  | item :: items => item.relocate move :: relocateAll move items
end

def Statement.relocate {α : Type} (move : Position → Position) : Statement α → Statement α
  | .evaluate expression => .evaluate (expression.relocate move)
  | .assign name value span => .assign name (value.relocate move) (span.relocate move)

section
variable {α : Type}

@[simp] theorem Expression.span_relocate (move : Position → Position) (e : Expression α) :
    (e.relocate move).span = e.span.relocate move := by
  cases e <;> rfl

mutual
theorem Expression.relocate_relocate (f g : Position → Position) (e : Expression α) :
    (e.relocate f).relocate g = e.relocate (g ∘ f) := by
  cases e with
  | literal value span => rfl
  | symbol name span => rfl
  | array items span =>
    simp only [Expression.relocate, relocateAll_relocateAll f g items]
    rfl
  | reference name span => rfl
  | call name arguments span =>
    simp only [Expression.relocate, relocateAll_relocateAll f g arguments]
    rfl

theorem relocateAll_relocateAll (f g : Position → Position) (items : List (Expression α)) :
    relocateAll g (relocateAll f items) = relocateAll (g ∘ f) items := by
  cases items with
  | nil => rfl
  | cons item items =>
    simp only [relocateAll, Expression.relocate_relocate f g item,
      relocateAll_relocateAll f g items]
end

theorem Statement.relocate_relocate (f g : Position → Position) (s : Statement α) :
    (s.relocate f).relocate g = s.relocate (g ∘ f) := by
  cases s with
  | evaluate e => simp only [Statement.relocate, Expression.relocate_relocate]
  | assign name value span =>
    simp only [Statement.relocate, Expression.relocate_relocate]
    rfl

/-! ## Constructs without their places -/

def Expression.unlocated (e : Expression α) : Expression α := e.relocate (fun _ => .origin)

def Statement.unlocated (s : Statement α) : Statement α := s.relocate (fun _ => .origin)

@[simp] theorem Statement.unlocated_relocate (move : Position → Position) (s : Statement α) :
    (s.relocate move).unlocated = s.unlocated :=
  s.relocate_relocate move _

end

/-- The program up to where its parts stand. -/
def Program.unlocated (program : Program) : Program :=
  ⟨program.file, program.statements.map Statement.unlocated, none⟩

end ModuleLoader.Script
