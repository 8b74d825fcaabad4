import ModuleLoader.Proofs.Recognition

/-!
# Tokens that some program begins with

Nothing is kept of the tokens taken but what may follow them, and nothing looks ahead. So whatever
was taken can be completed, and a token is refused just where no program goes on with it.

* `Viable` : some program begins with the tokens;
* `Assembly.exists_read?` : further tokens complete what was taken;
* `viable_iff` : the tokens that are taken are those that some program begins with;
* `exists_refused` : the first token that is refused, between viable tokens and the others;
* `not_derived_of_finish?` : tokens that are taken and may not end are no program.
-/

namespace ModuleLoader.Script

open ModuleLoader.Script.Derivation (Settles)

/-- Some program begins with the tokens. -/
def Viable (tokens : List Token) : Prop :=
  ∃ (rest : List Token) (d : Derivation), d.tokens = tokens ++ rest

namespace Assembly

/-! ## What was taken can be completed -/

/-- Closing brackets complete the statement that an expression stands in. -/
theorem exists_read?_supply (a : Assembly) (context : Context) (e : Expression Spelling) :
    ∃ rest, Settles rest ∧ ((a.supply context e).read? rest).isSome := by
  obtain ⟨target, frames⟩ := context
  induction frames generalizing a e with
  | nil =>
    have hnil : Settles [] := fun token htoken => by cases htoken
    refine ⟨[], hnil, ?_⟩
    cases target <;> rfl
  | cons frame frames ih =>
    obtain ⟨rest, -, hread⟩ := ih a ((frame.push e).close default)
    have hcloses := (frame.push e).closes_closer default
    refine ⟨⟨(frame.push e).closer, default⟩ :: rest, Derivation.settles_of_closes hcloses, ?_⟩
    rw [supply_frame, read?_cons, step?_closer_item rfl, supply_enter]
    exact hread

theorem exists_read?_expects {a : Assembly} {context : Context}
    (h : Expects a.phase context) : ∃ rest, (a.read? rest).isSome := by
  obtain ⟨rest, -, hread⟩ :=
    exists_read?_supply a context (.literal (.keyword .nil) default)
  refine ⟨⟨.literal (.keyword .nil), default⟩ :: rest, ?_⟩
  rw [read?_cons, step?_literal h]
  exact hread

/-- Further tokens complete what was taken. -/
theorem exists_read? (a : Assembly) : ∃ rest, (a.read? rest).isSome := by
  obtain ⟨statements, phase⟩ := a
  cases phase with
  | ready => exact ⟨[], rfl⟩
  | closed => exact ⟨[], rfl⟩
  | operand context => exact exists_read?_expects .operand
  | opened context => exact exists_read?_expects .opened
  | item context =>
    have hoperand : Expects (.operand context) context := .operand
    obtain ⟨rest, hread⟩ := exists_read?_expects (a := ⟨statements, .operand context⟩) hoperand
    exact ⟨⟨.comma, default⟩ :: rest, hread⟩
  | named context name span =>
    obtain ⟨rest, hsettles, hread⟩ :=
      exists_read?_supply ⟨statements, .ready⟩ context (.reference name span)
    rw [← read?_named ⟨statements, .ready⟩ context name span hsettles] at hread
    exact ⟨rest, hread⟩
  | quoted context start =>
    obtain ⟨rest, -, hread⟩ := exists_read?_supply ⟨statements, .quoted context start⟩ context
      (.symbol (String.ofList ['s']) ⟨start, default⟩)
    exact ⟨⟨.name ['s'], ⟨default, default⟩⟩ :: rest, hread⟩

/-! ## What is taken, and what is refused -/

theorem read?_append {a next : Assembly} {s : List Token} (h : a.run s = .ok next)
    (t : List Token) : a.read? (s ++ t) = next.read? t := by
  unfold read?
  rw [run_append, h]
  rfl

/-- The tokens up to the one that is refused are taken. -/
theorem exists_of_run_error {a : Assembly} {tokens : List Token} {token : Token}
    (h : a.run tokens = .error token) :
    ∃ before more next, tokens = before ++ token :: more ∧ a.run before = .ok next ∧
      next.step? token = none := by
  induction tokens generalizing a with
  | nil => cases h
  | cons first tokens ih =>
    rw [run] at h
    cases hstep : a.step? first with
    | none =>
      rw [hstep] at h
      cases h
      exact ⟨[], tokens, a, rfl, rfl, hstep⟩
    | some second =>
      rw [hstep] at h
      obtain ⟨before, more, next, rfl, hbefore, hrefused⟩ := ih h
      refine ⟨first :: before, more, next, rfl, ?_, hrefused⟩
      rw [run, hstep]
      exact hbefore

end Assembly

/-- The tokens that are taken are those that some program begins with. -/
theorem viable_iff {tokens : List Token} :
    Viable tokens ↔ ∃ a, Assembly.start.run tokens = .ok a := by
  constructor
  · rintro ⟨rest, d, hd⟩
    have hread := Assembly.read?_eq_some_iff.2 ⟨d, hd, rfl⟩
    unfold Assembly.read? at hread
    rw [Assembly.run_append] at hread
    cases hrun : Assembly.start.run tokens with
    | error token =>
      rw [hrun] at hread
      cases hread
    | ok a => exact ⟨a, rfl⟩
  · rintro ⟨a, hrun⟩
    obtain ⟨rest, hread⟩ := a.exists_read?
    obtain ⟨statements, hstatements⟩ := Option.isSome_iff_exists.1 hread
    rw [← Assembly.read?_append hrun] at hstatements
    obtain ⟨d, hd, -⟩ := Assembly.read?_eq_some_iff.1 hstatements
    exact ⟨rest, d, hd⟩

/-- Some program begins with the tokens before the one that is refused, and none goes on with
it. -/
theorem exists_refused {tokens : List Token} {token : Token}
    (h : Assembly.start.run tokens = .error token) :
    ∃ before more, tokens = before ++ token :: more ∧ Viable before ∧
      ¬ Viable (before ++ [token]) := by
  obtain ⟨before, more, next, htokens, hbefore, hrefused⟩ := Assembly.exists_of_run_error h
  refine ⟨before, more, htokens, viable_iff.2 ⟨next, hbefore⟩, fun hviable => ?_⟩
  obtain ⟨last, hlast⟩ := viable_iff.1 hviable
  rw [Assembly.run_append, hbefore] at hlast
  simp only [Except.bind, Assembly.run, hrefused] at hlast
  cases hlast

/-- Tokens that are taken and may not end are no program. -/
theorem not_derived_of_finish? {tokens : List Token} {a : Assembly}
    (h : Assembly.start.run tokens = .ok a) (hfinish : a.finish? = none) (d : Derivation) :
    d.tokens ≠ tokens := by
  intro hd
  have hread := Assembly.read?_eq_some_iff.2 ⟨d, hd, rfl⟩
  unfold Assembly.read? at hread
  rw [h] at hread
  exact Option.some_ne_none _ (hread.symm.trans hfinish)

end ModuleLoader.Script
