import ModuleLoader.Proofs.Orderly
import ModuleLoader.Proofs.Search

/-!
# Evaluation takes a course

Whatever a script does, the state after it is that in which it began with the events of a course
replayed.

* `follows_loadCandidate`, `orderly_requireSymbol` : a load, from a state without the record, and a
  require from any;
* `orderly_call` : the functions that every script has;
* `orderly_evaluate`, `orderly_runStatements` : expressions and statements, by their structure;
* `orderly_execute` : programs, by the depth of nesting.
-/

namespace ModuleLoader

open ModuleLoader.Action
open Script (Expression Statement Literal Program)

section Evaluation
variable {exec : Execute} (hexec : ∀ program, (exec program).Orderly)

/-! ## Requires -/

theorem conduct_settling (m : Machine) : Conduct m m.settling none := by
  unfold Machine.settling
  split
  · exact .done
  · exact .cons rfl .settled

theorem conduct_probes (candidates : List Candidate) (m : Machine) :
    Conduct m (probes candidates) none := by
  induction candidates generalizing m with
  | nil => exact .done
  | cons c rest ih => exact .cons rfl (.cons rfl (ih _))

theorem conduct_search (candidates : List Candidate) (m : Machine) :
    Conduct m (m.settling ++ probes candidates) none :=
  .append (conduct_settling m) (conduct_probes candidates _)

theorem orderly_candidates (name : String) : (candidates name).Orderly := by
  intro m
  refine ⟨m.settling, ?_, ?_⟩
  · rw [on_candidates]
  · rw [on_candidates]
    exact conduct_settling m

include hexec

theorem follows_loadCandidate_library {s : Symbol} (path : String) {m : Machine}
    (new : m.registry.find? s = none) :
    (loadCandidate exec s ⟨path, .nativeLibrary⟩).Follows m := by
  have hnew : ∀ t ∈ some s, m.registry.find? t = none := by
    rintro t ⟨⟩
    exact new
  obtain ⟨events, hafter, hinstall⟩ :=
    exists_installation hexec path (m.replay (asked path (some s)))
  have hchosen : m.record (.chosen s ⟨path, .nativeLibrary⟩) = m.replay (asked path (some s)) := rfl
  unfold Follows
  rw [on_loadCandidate_library exec path, hchosen]
  rcases h : (installLibrary exec path).on (m.replay (asked path (some s))) with
    ⟨stop | library, after⟩
  · rw [h] at hafter hinstall
    refine ⟨asked path (some s) ++ events, ?_, hinstall.conduct_error hnew⟩
    rw [Machine.replay_append]
    exact hafter
  · rw [h] at hafter hinstall
    obtain rfl : after = _ := hafter
    rw [← Machine.replay_append] at hinstall ⊢
    dsimp only
    split
    · rename_i still
      refine ⟨_, (Machine.replay_append m _ _).symm, hinstall.conduct_ok hnew ?_⟩
      rintro rfl
      exact .recorded still
    · rename_i old taken
      refine ⟨_, (Machine.replay_append m _ [.delivered s library]).symm,
        hinstall.conduct_ok hnew ?_⟩
      rintro rfl
      exact .refused (by rw [taken]; exact Option.some_ne_none old)

theorem follows_loadCandidate {s : Symbol} (c : Candidate) {m : Machine}
    (new : m.registry.find? s = none) : (loadCandidate exec s c).Follows m := by
  obtain ⟨path, kind⟩ := c
  cases kind with
  | scriptSource =>
      have hon := on_loadCandidate_script exec path new
      obtain ⟨events, hafter, hrun⟩ := (orderly_loadScript hexec path).map
        (fun _ => (⟨s, .scriptSource, path, none⟩ : LoadedModule)) (m.replay (scriptOpening s path))
      rw [← hon] at hafter hrun
      refine ⟨scriptOpening s path ++ events, ?_, .script new hrun⟩
      rw [hafter, Machine.replay_append]
  | nativeLibrary => exact follows_loadCandidate_library hexec path new

theorem orderly_requireSymbol (s : Symbol) : (requireSymbol exec s).Orderly := by
  intro m
  cases h : m.registry.find? s with
  | some r =>
      refine ⟨[.noted (.alreadyLoaded s.name r.path)], ?_, ?_⟩
      · rw [on_requireSymbol_known exec h]
        rfl
      · rw [on_requireSymbol_known exec h]
        exact .aside rfl
  | none =>
      cases hfind : (m.files s.name).find? (fun c => m.system.isFile c.path) with
      | none =>
          have hnone : ∀ c ∈ m.files s.name, ¬ m.system.isFile c.path :=
            fun c hc => by simpa using List.find?_eq_none.1 hfind c hc
          unfold Follows
          rw [on_requireSymbol_missing exec h hnone]
          exact ⟨_, rfl, .append (conduct_search _ m) (.aside rfl)⟩
      | some c =>
          have hnew : (m.replay (m.settling ++ probes (tried m.system
              (m.files s.name)))).registry.find? s = none := by
            rw [registry_search]
            exact h
          exact ((follows_loadCandidate hexec c hnew).map _).after (conduct_search _ m)
            (on_requireSymbol_found exec h hfind)

theorem orderly_require (value : Value) : (require exec value).Orderly := by
  have hsymbol : (moduleSymbol value).Orderly := by
    cases value with
    | symbol s => exact orderly_pure s
    | string text => exact orderly_pure (⟨text⟩ : Symbol)
    | _ => exact orderly_fail rfl
  exact hsymbol.bind (orderly_requireSymbol hexec)

theorem orderly_requireOrFail (value : Value) : (requireOrFail exec value).Orderly := by
  refine (orderly_require hexec value).bind (fun requirement => ?_)
  cases requirement with
  | notFound s => exact (orderly_candidates s.name).bind (fun _ => orderly_fail rfl)
  | alreadyLoaded r => exact orderly_pure _
  | resolved r => exact orderly_pure _

/-! ## Calls -/

theorem orderly_call (function : Builtin) (arguments : List Value) :
    (function.call exec arguments).Orderly := by
  cases function with
  | require => exact (orderly_requireOrFail hexec _).map _
  | tryRequire => exact (orderly_require hexec _).map _
  | load => exact (orderly_stringOf _).bind (orderly_loadScript hexec)
  | loadLib =>
      exact (orderly_stringOf _).bind (fun path =>
        (orderly_loadLibrary hexec path).bind (fun _ => orderly_pure _))
  | compileFile =>
      exact (orderly_stringOf _).bind (fun path =>
        (orderly_compileFile path).bind (fun _ => orderly_pure _))
  | fileExists =>
      exact (orderly_stringOf _).bind (fun path =>
        (orderly_fileExists path).bind (fun _ => orderly_pure _))
  | baseName => exact (orderly_stringOf _).bind (fun _ => orderly_pure _)
  | dirName => exact (orderly_stringOf _).bind (fun _ => orderly_pure _)
  | joinPath =>
      exact (orderly_stringOf _).bind (fun _ => (orderly_stringOf _).bind (fun _ => orderly_pure _))
  | expandPath =>
      refine (orderly_stringOf _).bind (fun path =>
        (orderly_expandPath path).bind (fun expanded => ?_))
      cases expanded with
      | none => exact orderly_pure _
      | some path => exact orderly_pure _
  | print => exact (orderly_record rfl).bind (fun _ => orderly_pure _)

theorem orderly_invoke (function : Callable) (arguments : List Value) :
    (invoke exec function arguments).Orderly := by
  cases function with
  | builtin function => exact orderly_call hexec function arguments
  | host function =>
      unfold invoke
      dsimp only
      split
      · exact orderly_pure _
      · exact orderly_fail rfl
  | script compiled => exact hexec compiled.program

theorem orderly_callByName (name : String) (location : Script.Location) (arguments : List Value) :
    (callByName exec name location arguments).Orderly := by
  refine orderly_get.bind (fun m => ?_)
  split
  · exact orderly_fail rfl
  · split
    · exact orderly_fail rfl
    · exact orderly_invoke hexec _ arguments

omit hexec in
theorem orderly_lookUp (name : String) (location : Script.Location) :
    (lookUp name location).Orderly := by
  refine orderly_get.bind (fun m => ?_)
  split
  · exact orderly_pure _
  · exact orderly_fail rfl

end Evaluation

/-! ## Expressions, statements and programs -/

theorem orderly_literalValue (literal : Literal) : (literalValue literal).Orderly := by
  unfold literalValue
  split
  · exact orderly_throw rfl
  · exact orderly_pure _

mutual
theorem orderly_evaluate {exec : Execute} (hexec : ∀ program, (exec program).Orderly)
    (file : String) :
    ∀ expression : Expression Literal, (evaluate exec file expression).Orderly
  | .literal value _ => orderly_literalValue value
  | .symbol _ _ => orderly_pure _
  | .array items _ => (orderly_evaluateAll hexec file items).bind (fun _ => orderly_pure _)
  | .reference name span => orderly_lookUp name (.ofSpan file span)
  | .call name arguments span =>
    (orderly_evaluateAll hexec file arguments).bind
      (orderly_callByName hexec name (.ofSpan file span))

theorem orderly_evaluateAll {exec : Execute} (hexec : ∀ program, (exec program).Orderly)
    (file : String) :
    ∀ items : List (Expression Literal), (evaluateAll exec file items).Orderly
  | [] => orderly_pure _
  | item :: items =>
    (orderly_evaluate hexec file item).bind (fun _ =>
      (orderly_evaluateAll hexec file items).bind (fun _ => orderly_pure _))
end

theorem orderly_evaluateStatement {exec : Execute} (hexec : ∀ program, (exec program).Orderly)
    (file : String) (statement : Statement Literal) :
    (evaluateStatement exec file statement).Orderly := by
  cases statement with
  | evaluate expression => exact orderly_evaluate hexec file expression
  | assign name expression span =>
      exact (orderly_evaluate hexec file expression).bind (fun value =>
        (orderly_record rfl).bind (fun _ => orderly_pure value))

theorem orderly_runStatements {exec : Execute} (hexec : ∀ program, (exec program).Orderly)
    (file : String) (last : Value) (statements : List (Statement Literal)) :
    (runStatements exec file last statements).Orderly := by
  induction statements generalizing last with
  | nil => exact orderly_pure last
  | cons statement rest ih => exact (orderly_evaluateStatement hexec file statement).bind ih

/-- Every program takes a course, however deep scripts may be nested. -/
theorem orderly_execute (depth : Nat) (program : Program) : (execute depth program).Orderly := by
  induction depth generalizing program with
  | zero => exact orderly_throw rfl
  | succ depth ih =>
      exact (orderly_note rfl).bind (fun _ => orderly_runStatements ih _ _ _)

end ModuleLoader
