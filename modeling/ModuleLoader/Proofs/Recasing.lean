import ModuleLoader.Proofs.Alike
import ModuleLoader.Proofs.Evaluation
import ModuleLoader.Session

/-!
# Letter case in scripts

Scripts call functions and use variables in any letter case. A program and another one that differs
from it in the letter case of those names run alike; symbols and strings, which name modules and
files, keep their spelling.

* `Expression.Recased`, `Statement.Recased`, `Program.Recased` : the same construct, up to the
  letter case of the names of variables and functions;
* `uniform_call`, `matches_callByName` : calls;
* `matches_evaluate`, `matches_runStatements` : expressions and statements, by their structure;
* `matches_execute` : programs, by the depth of nesting;
* `SameButSpelling`, `execute_recased` : what two such runs have in common.
-/

namespace ModuleLoader

open ModuleLoader.Action
open Script (Expression Statement Literal Program Span)

/-! ## Programs in another letter case -/

namespace Script

mutual
/-- The expressions are the same, up to the letter case of variables and functions. -/
inductive Expression.Recased : Expression Literal → Expression Literal → Prop
  | literal (value : Literal) (span : Span) :
    Expression.Recased (.literal value span) (.literal value span)
  | symbol (name : String) (span : Span) :
    Expression.Recased (.symbol name span) (.symbol name span)
  | array {items others : List (Expression Literal)} (alike : RecasedAll items others)
    (span : Span) : Expression.Recased (.array items span) (.array others span)
  | reference {name other : String} (same : SameName name other) (span : Span) :
    Expression.Recased (.reference name span) (.reference other span)
  | call {name other : String} {arguments others : List (Expression Literal)}
    (same : SameName name other) (alike : RecasedAll arguments others) (span : Span) :
    Expression.Recased (.call name arguments span) (.call other others span)

inductive RecasedAll : List (Expression Literal) → List (Expression Literal) → Prop
  | nil : RecasedAll [] []
  | cons {e other : Expression Literal} {items others : List (Expression Literal)}
    (first : Expression.Recased e other) (rest : RecasedAll items others) :
    RecasedAll (e :: items) (other :: others)
end

/-- The statements are the same, up to the letter case of variables and functions. -/
inductive Statement.Recased : Statement Literal → Statement Literal → Prop
  | evaluate {e other : Expression Literal} (alike : e.Recased other) :
    Recased (.evaluate e) (.evaluate other)
  | assign {name target : String} {e other : Expression Literal} (same : SameName name target)
    (alike : e.Recased other) (span : Span) :
    Recased (.assign name e span) (.assign target other span)

/-- The programs are the same, up to the letter case of variables and functions. -/
structure Program.Recased (program other : Program) : Prop where
  file : program.file = other.file
  statements : List.Forall₂ Statement.Recased program.statements other.statements

theorem sameName_refl (name : String) : SameName name name := Symbol.same_refl ⟨name⟩

mutual
theorem Expression.recased_refl (e : Expression Literal) : e.Recased e := by
  cases e with
  | literal value span => exact .literal value span
  | symbol name span => exact .symbol name span
  | array items span => exact .array (recasedAll_refl items) span
  | reference name span => exact .reference (sameName_refl name) span
  | call name arguments span => exact .call (sameName_refl name) (recasedAll_refl arguments) span

theorem recasedAll_refl (items : List (Expression Literal)) : RecasedAll items items := by
  cases items with
  | nil => exact .nil
  | cons item items => exact .cons item.recased_refl (recasedAll_refl items)
end

theorem Statement.recased_refl (s : Statement Literal) : s.Recased s := by
  cases s with
  | evaluate e => exact .evaluate e.recased_refl
  | assign name e span => exact .assign (sameName_refl name) e.recased_refl span

theorem Program.recased_refl (program : Program) : program.Recased program :=
  ⟨rfl, List.forall₂_same.2 (fun s _ => s.recased_refl)⟩

end Script

/-! ## Calls -/

section Calls
variable {exec : Execute} (hexec : ∀ program, (exec program).Uniform)

include hexec

theorem uniform_call (function : Builtin) (arguments : List Value) :
    (function.call exec arguments).Uniform := by
  cases function with
  | require => exact (uniform_requireOrFail hexec _).map _
  | tryRequire => exact (uniform_require hexec _).map _
  | load => exact (uniform_stringOf _).bind (uniform_loadScript hexec)
  | loadLib =>
    exact (uniform_stringOf _).bind (fun path =>
      (uniform_loadLibrary hexec path).bind (fun _ => uniform_pure _))
  | compileFile =>
    exact (uniform_stringOf _).bind (fun path =>
      (uniform_compileFile path).bind (fun _ => uniform_pure _))
  | fileExists =>
    exact (uniform_stringOf _).bind (fun path =>
      (uniform_fileExists path).bind (fun _ => uniform_pure _))
  | baseName => exact (uniform_stringOf _).bind (fun _ => uniform_pure _)
  | dirName => exact (uniform_stringOf _).bind (fun _ => uniform_pure _)
  | joinPath =>
    exact (uniform_stringOf _).bind (fun _ => (uniform_stringOf _).bind (fun _ => uniform_pure _))
  | expandPath =>
    refine (uniform_stringOf _).bind (fun path =>
      (uniform_expandPath path).bind (fun expanded => ?_))
    cases expanded with
    | none => exact uniform_pure _
    | some path => exact uniform_pure _
  | print => exact (uniform_record _).bind (fun _ => uniform_pure _)

theorem uniform_invoke (function : Callable) (arguments : List Value) :
    (invoke exec function arguments).Uniform := by
  cases function with
  | builtin function => exact uniform_call hexec function arguments
  | host function =>
    unfold invoke
    dsimp only
    split
    · exact uniform_pure _
    · exact uniform_fail _
  | script compiled => exact hexec compiled.program

theorem matches_callByName {name other : String} (h : SameName name other)
    (location : Script.Location) (arguments : List Value) :
    Matches (callByName exec name location arguments)
      (callByName exec other location arguments) := by
  refine matches_get (fun m n hmn => ?_)
  rw [hmn.callable? h]
  split
  · exact matches_fail (.undefinedFunction h) location
  · split
    · exact matches_fail (.badCall h _) location
    · exact uniform_invoke hexec _ arguments

omit hexec in
theorem matches_lookUp {name other : String} (h : SameName name other)
    (location : Script.Location) : Matches (lookUp name location) (lookUp other location) := by
  refine matches_get (fun m n hmn => ?_)
  rw [hmn.globals.get? ⟨name⟩, Bindings.get?_congr n.globals h]
  split
  · exact uniform_pure _
  · exact matches_fail (.undefinedVariable h) location

end Calls

/-! ## Expressions, statements and programs -/

theorem uniform_literalValue (literal : Literal) : (literalValue literal).Uniform := by
  unfold literalValue
  split
  · exact uniform_throw _
  · exact uniform_pure _

mutual
theorem matches_evaluate {exec : Execute} (hexec : ∀ program, (exec program).Uniform)
    (file : String) {e other : Expression Literal} (h : e.Recased other) :
    Matches (evaluate exec file e) (evaluate exec file other) := by
  cases h with
  | literal value span => exact uniform_literalValue value
  | symbol name span => exact uniform_pure _
  | array alike span =>
    exact (matches_evaluateAll hexec file alike).bind (fun values => uniform_pure _)
  | reference same span => exact matches_lookUp same _
  | call same alike span =>
    exact (matches_evaluateAll hexec file alike).bind (matches_callByName hexec same _)

theorem matches_evaluateAll {exec : Execute} (hexec : ∀ program, (exec program).Uniform)
    (file : String) {items others : List (Expression Literal)}
    (h : Script.RecasedAll items others) :
    Matches (evaluateAll exec file items) (evaluateAll exec file others) := by
  cases h with
  | nil => exact uniform_pure _
  | cons first rest =>
    exact (matches_evaluate hexec file first).bind (fun value =>
      (matches_evaluateAll hexec file rest).bind (fun values => uniform_pure _))
end

section Statements
variable {exec : Execute} (hexec : ∀ program, (exec program).Uniform)

include hexec

theorem matches_evaluateStatement (file : String) {s other : Statement Literal}
    (h : s.Recased other) :
    Matches (evaluateStatement exec file s) (evaluateStatement exec file other) := by
  cases h with
  | evaluate alike => exact matches_evaluate hexec file alike
  | assign same alike span =>
    exact (matches_evaluate hexec file alike).bind (fun value =>
      (matches_record (.bound same value)).bind (fun _ => uniform_pure value))

theorem matches_runStatements (file : String) (last : Value)
    {statements others : List (Statement Literal)}
    (h : List.Forall₂ Statement.Recased statements others) :
    Matches (runStatements exec file last statements) (runStatements exec file last others) := by
  induction h generalizing last with
  | nil => exact uniform_pure last
  | cons first _ ih => exact (matches_evaluateStatement hexec file first).bind ih

theorem matches_runProgram {program other : Program} (h : program.Recased other) :
    Matches (runProgram exec program) (runProgram exec other) := by
  unfold runProgram
  rw [h.file, h.statements.length_eq]
  exact (uniform_note _).bind (fun _ => matches_runStatements hexec _ _ h.statements)

end Statements

/-- Programs in another letter case match, however deep scripts may be nested. -/
theorem matches_execute (depth : Nat) {program other : Program} (h : program.Recased other) :
    Matches (execute depth program) (execute depth other) := by
  induction depth generalizing program other with
  | zero => exact uniform_throw .exhausted
  | succ depth ih => exact matches_runProgram (fun nested => ih nested.recased_refl) h

/-! ## What two runs tell -/

theorem filterMap_congr_alike {α : Type} {f : Event → Option α}
    (hf : ∀ {event other : Event}, event.Alike other → f event = f other)
    {events others : List Event} (h : List.Forall₂ Event.Alike events others) :
    events.filterMap f = others.filterMap f := by
  induction h with
  | nil => rfl
  | cons first _ ih => rw [List.filterMap_cons, List.filterMap_cons, hf first, ih]

theorem Machine.names_replay (m : Machine) (events : List Event) :
    m.globals.names <+: (m.replay events).globals.names := by
  induction events generalizing m with
  | nil => exact List.prefix_refl _
  | cons event events ih =>
    refine List.IsPrefix.trans ?_ (ih (m.record event))
    cases event with
    | bound s value =>
      change m.globals.names <+: (m.globals.set s value).names
      rw [Bindings.names_set]
      split
      · exact List.prefix_refl _
      · exact List.prefix_append _ _
    | _ => exact List.prefix_refl _

/-- Two runs from one state have the same outcome, up to the spelling of the globals that they were
the first to bind and of the name that a failure is about. -/
structure SameButSpelling (m : Machine) (run other : Outcome Value × Machine) : Prop where
  result : ResultsAlike run.1.result other.1.result
  printed : printedText run.1.events = printedText other.1.events
  libraries : libraryEvents run.1.events = libraryEvents other.1.events
  notes : notes run.1.events = notes other.1.events
  registry : run.2.registry = other.2.registry
  globals : ∀ s, run.2.globals.get? s = other.2.globals.get? s
  names : ∃ added others, run.2.globals.names = m.globals.names ++ added ∧
    other.2.globals.names = m.globals.names ++ others ∧
    List.Forall₂ (fun s t => s.same t) added others

theorem Machine.Alike.since {after other m : Machine} (h : after.Alike other) :
    List.Forall₂ Event.Alike (after.since m) (other.since m) := by
  have htrace := h.trace
  unfold Machine.since
  rw [htrace.length_eq]
  exact List.rel_reverse (List.forall₂_take _ htrace)

/-- Programs that differ in the letter case of variables and functions run alike from every
state. -/
theorem execute_recased (depth : Nat) (m : Machine) {program other : Program}
    (h : program.Recased other) :
    SameButSpelling m (observe (execute depth program) m) (observe (execute depth other) m) := by
  obtain ⟨hresult, hstate⟩ := matches_execute depth h m m m.alike_refl
  have hevents := hstate.since (m := m)
  obtain ⟨events, hafter, -⟩ := orderly_execute depth program m
  obtain ⟨others, hother, -⟩ := orderly_execute depth other m
  refine ⟨hresult, ?_, ?_, ?_, hstate.registry, hstate.globals.get?, ?_⟩
  · refine congrArg String.join (filterMap_congr_alike (fun he => ?_) hevents)
    cases he <;> rfl
  · refine filterMap_congr_alike (fun he => ?_) hevents
    cases he <;> rfl
  · refine filterMap_congr_alike (fun he => ?_) hevents
    cases he <;> rfl
  · obtain ⟨added, hadded⟩ := hafter ▸ m.names_replay events
    obtain ⟨more, hmore⟩ := hother ▸ m.names_replay others
    refine ⟨added, more, hadded.symm, hmore.symm, ?_⟩
    have hnames := hstate.globals.names
    rw [← hadded, ← hmore] at hnames
    have hdrop := List.forall₂_drop m.globals.names.length hnames
    rwa [List.drop_left, List.drop_left] at hdrop

def announcing (target name function : String) : Program :=
  ⟨"main", [.assign target (.symbol "Core" default) default,
    .evaluate (.call function [.reference name default] default)], none⟩

def bare : Machine := Machine.blank (System.bare none)

theorem execute_recased_announcing :
    (announcing "topic" "Topic" "Print").Recased (announcing "TOPIC" "tOpIc" "pRiNt") ∧
      SameButSpelling bare (observe (execute 1 (announcing "topic" "Topic" "Print")) bare)
        (observe (execute 1 (announcing "TOPIC" "tOpIc" "pRiNt")) bare) ∧
      printedText (observe (execute 1 (announcing "TOPIC" "tOpIc" "pRiNt")) bare).1.events =
        "Core\n" := by
  have hrecased : (announcing "topic" "Topic" "Print").Recased
      (announcing "TOPIC" "tOpIc" "pRiNt") := by
    have htopic : SameName "topic" "TOPIC" := by decide +kernel
    have hreference : SameName "Topic" "tOpIc" := by decide +kernel
    have hprint : SameName "Print" "pRiNt" := by decide +kernel
    exact ⟨rfl, .cons (.assign htopic (.symbol "Core" default) default)
      (.cons (.evaluate (.call hprint (.cons (.reference hreference default) .nil) default)) .nil)⟩
  exact ⟨hrecased, execute_recased 1 _ hrecased, by decide +kernel⟩

end ModuleLoader
