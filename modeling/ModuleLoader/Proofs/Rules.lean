import ModuleLoader.Proofs.Canonical
import ModuleLoader.Proofs.Search

/-!
# Rules for running scripts

A rule says in which states scripts run, which values they compute and why they may stop. If it
bears with the few things that scripts do by themselves, every run keeps to it, however deep
scripts are nested.

* `Stop.isScripted`, `Value.isHost` : why a script may stop, and what it cannot compute by itself;
* `Rule`, `Rule.Admits`, `Rule.Bears` : a rule, the events that it has to bear with, and the rules
  that do;
* `Action.Obeys` : an action that keeps to a rule (`Obeys.bind`, `Obeys.map`);
* `obeys_loadScript`, `obeys_installLibrary`, `obeys_requireSymbol` : loads and requires;
* `obeys_call`, `obeys_evaluate`, `obeys_runStatements` : calls, expressions and statements;
* `obeys_execute` : programs, by the depth of nesting.
-/

namespace ModuleLoader

open ModuleLoader.Action
open Script (Expression Statement Literal Program)

def Value.isHost : Value → Bool
  | .host _ _ => true
  | _ => false

/-- A script may come to this failure without the help of a host function. -/
def Fault.isScripted : Fault → Bool
  | .argument _ _ | .library _ _ | .moduleNotFound _ _ | .unreadable _ _ | .malformed _ _ _
  | .evaluation _ _ | .nulInPath | .badPath Path.Fault.nulInLogin | .registeredTwice _ => true
  | _ => false

/-- A script may stop for this reason without the help of a host function. -/
def Stop.isScripted : Stop → Bool
  | .fault cause => cause.isScripted
  | .exhausted | .brokenText => true

/-- The event puts no search path together, chooses no file and binds no global. -/
def Event.isFree : Event → Bool
  | .settled _ | .chosen _ _ | .bound _ _ => false
  | _ => true

/-- In which states scripts run, which values they compute and why they may stop. -/
structure Rule where
  state : Machine → Prop
  value : Value → Prop
  stop : Stop → Prop

namespace Rule

/-- The search path is that of the configuration, a file that is chosen is the first candidate that
exists, and what is bound is a value of the rule. -/
def Admits (rule : Rule) (m : Machine) : Event → Prop
  | .settled directories => directories = m.configuration.searchPath
  | .chosen s c => m.registry.find? s = none ∧
    (m.files s.name).find? (fun d => m.system.isFile d.path) = some c
  | .bound _ value => rule.value value
  | _ => True

theorem admits_of_isFree {rule : Rule} {m : Machine} {event : Event} (h : event.isFree) :
    rule.Admits m event := by
  cases event with
  | settled | chosen | bound => cases h
  | _ => exact trivial

/-- The rule bears with what scripts do: with the events, with what globals hold and host functions
answer, and with the reasons to stop. -/
structure Bears (rule : Rule) : Prop where
  event : ∀ {m : Machine} {event : Event}, rule.state m → rule.Admits m event →
    rule.state (m.record event)
  plain : ∀ {value : Value}, value.isHost = false → rule.value value
  global : ∀ {m : Machine} {s : Symbol} {value : Value}, rule.state m →
    m.globals.get? s = some value → rule.value value
  answer : ∀ {m : Machine} {name : String} {function : HostFunction} {arguments : List Value}
    {value : Value}, rule.state m → m.callable? name = some (.host function) →
    function.call arguments = .ok value → rule.value value
  refusal : ∀ {m : Machine} {name : String} {function : HostFunction} {arguments : List Value}
    {failure : HostFailure}, rule.state m → m.callable? name = some (.host function) →
    function.call arguments = .error failure → rule.stop (.fault (.host failure))
  stop : ∀ {stop : Stop}, stop.isScripted → rule.stop stop

end Rule

namespace Action
variable {α β : Type} {rule : Rule} {P : β → Prop} {Q : α → Prop} {m : Machine}

/-- From this state the action keeps to the rule, and a result is as expected. -/
structure ObeysFrom (rule : Rule) (Q : α → Prop) (a : Action α) (m : Machine) : Prop where
  state : rule.state (a.on m).2
  result : ∀ x, (a.on m).1 = .ok x → Q x
  stop : ∀ stop, (a.on m).1 = .error stop → rule.stop stop

/-- From every state of the rule the action keeps to it. -/
def Obeys (rule : Rule) (Q : α → Prop) (a : Action α) : Prop :=
  ∀ m, rule.state m → ObeysFrom rule Q a m

theorem ObeysFrom.after {a b : Action α} {n : Machine} (h : a.on m = b.on n)
    (hb : ObeysFrom rule Q b n) : ObeysFrom rule Q a m := by
  obtain ⟨hstate, hresult, hstop⟩ := hb
  rw [← h] at hstate hresult hstop
  exact ⟨hstate, hresult, hstop⟩

theorem ObeysFrom.bind {a : Action α} {f : α → Action β} (ha : ObeysFrom rule Q a m)
    (hf : ∀ x after, a.on m = (.ok x, after) → rule.state after → Q x →
      ObeysFrom rule P (f x) after) :
    ObeysFrom rule P (a >>= f) m := by
  obtain ⟨hstate, hresult, hstop⟩ := ha
  rcases h : a.on m with ⟨stop | x, after⟩
  · rw [h] at hstate hstop
    refine ⟨?_, ?_, ?_⟩
    · rw [on_bind_error h]
      exact hstate
    · rw [on_bind_error h]
      intro x hx
      cases hx
    · rw [on_bind_error h]
      intro other hother
      exact hstop other (congrArg Except.error (Except.error.inj hother))
  · rw [h] at hstate hresult
    exact (hf x after h hstate (hresult x rfl)).after (on_bind_ok h f)

theorem Obeys.bind {a : Action α} {f : α → Action β} (ha : Obeys rule Q a)
    (hf : ∀ x, Q x → Obeys rule P (f x)) : Obeys rule P (a >>= f) :=
  fun m hm => (ha m hm).bind (fun x after _ hafter hx => hf x hx after hafter)

theorem obeys_pure {x : α} (h : Q x) : Obeys rule Q (pure x) := by
  intro m hm
  refine ⟨hm, fun y hy => ?_, fun stop hstop => by cases hstop⟩
  rw [← Except.ok.inj hy]
  exact h

theorem obeys_get : Obeys rule rule.state get := by
  intro m hm
  refine ⟨hm, fun n hn => ?_, fun stop hstop => by cases hstop⟩
  rw [← Except.ok.inj hn]
  exact hm

theorem obeys_throw {stop : Stop} (h : rule.stop stop) : Obeys rule Q (throw stop) := by
  intro m hm
  refine ⟨hm, fun x hx => (by cases hx), fun other hother => ?_⟩
  rw [← Except.error.inj hother]
  exact h

theorem obeys_fail {fault : Fault} (h : rule.stop (.fault fault)) : Obeys rule Q (fail fault) :=
  obeys_throw h

theorem Obeys.map {a : Action α} {f : α → β} (ha : Obeys rule Q a) (hf : ∀ x, Q x → P (f x)) :
    Obeys rule P (f <$> a) := by
  rw [map_eq_pure_bind]
  exact ha.bind (fun x hx => obeys_pure (hf x hx))

theorem Obeys.mono {R : α → Prop} {a : Action α} (ha : Obeys rule Q a) (h : ∀ x, Q x → R x) :
    Obeys rule R a :=
  fun m hm => ⟨(ha m hm).state, fun x hx => h x ((ha m hm).result x hx), (ha m hm).stop⟩

/-- Nothing is expected of the result. -/
abbrev Keeps (rule : Rule) (a : Action α) : Prop := Obeys rule (fun _ => True) a

theorem Obeys.keeps {a : Action α} (ha : Obeys rule Q a) : Keeps rule a :=
  ha.mono (fun _ _ => trivial)

theorem Keeps.discard {a : Action α} (ha : Keeps rule a) : Keeps rule (discard a) :=
  ha.map (fun _ h => h)

end Action

/-! ## What does not depend on a rule -/

theorem resolveHome_fault {users : Path.Users} {path : String} {fault : Path.Fault}
    (h : Path.resolveHome users .standard path = .error (.fault fault)) : fault = .nulInLogin := by
  unfold Path.resolveHome at h
  split at h
  · rw [if_neg (by decide)] at h
    dsimp only at h
    split at h
    · cases h
      rfl
    · split at h <;> cases h
  · cases h
  · cases h

/-- Under the standard policy only a login can keep a path from being taken apart. -/
theorem System.expand_fault {system : System} {path : String} {fault : Path.Fault}
    (h : system.expand path = .error (.fault fault)) : fault = .nulInLogin := by
  have hplace (directory remainder : String) :
      Path.place .standard directory remainder ≠ .error (.fault fault) := by
    unfold Path.place
    split
    · exact fun hok => by cases hok
    · rw [Path.Policy.standard_canonical]
      exact fun hok => by cases hok
  unfold System.expand Path.expand at h
  split at h
  · cases h
  · split at h
    · split at h
      · exact absurd h (hplace _ _)
      · rename_i hresolve
        cases h
        exact resolveHome_fault hresolve
      · cases h
    · split at h
      · exact absurd h (hplace _ _)
      · cases h

namespace Machine

theorem searchPath_probes (m : Machine) (candidates : List Candidate) :
    (m.replay (probes candidates)).searchPath = m.searchPath := by
  induction candidates generalizing m with
  | nil => rfl
  | cons c rest ih => exact ih ((m.record (.noted (.probing c.path))).record _)

theorem files_search (m : Machine) (candidates : List Candidate) (name : String) :
    (m.replay (m.settling ++ probes candidates)).files name = m.files name := by
  unfold files
  rw [configuration_replay, replay_append, searchPath_probes]
  unfold settling
  cases hpath : m.searchPath with
  | some directories => rw [replay_nil, hpath]
  | none => rfl

end Machine

theorem Rule.admits_chosen {rule : Rule} {m : Machine} {s : Symbol} {c : Candidate}
    (new : m.registry.find? s = none)
    (hfind : (m.files s.name).find? (fun d => m.system.isFile d.path) = some c)
    (candidates : List Candidate) :
    rule.Admits (m.replay (m.settling ++ probes candidates)) (.chosen s c) := by
  refine ⟨?_, ?_⟩
  · rw [registry_search]
    exact new
  · rw [Machine.files_search, Machine.system_replay]
    exact hfind

section Rules
variable {rule : Rule} (hrule : rule.Bears)

include hrule

theorem keeps_record {event : Event} (h : event.isFree) : Keeps rule (record event) :=
  fun _ hm => ⟨hrule.event hm (Rule.admits_of_isFree h), fun _ _ => trivial,
    fun stop hstop => by cases hstop⟩

theorem keeps_note (n : Note) : Keeps rule (note n) := keeps_record hrule rfl

theorem obeys_scripted {α : Type} {Q : α → Prop} {fault : Fault} (h : fault.isScripted) :
    Obeys rule Q (fail fault) :=
  obeys_fail (hrule.stop h)

/-! ## Paths, sources and library files -/

theorem keeps_stringOf (value : Value) : Keeps rule (stringOf value) := by
  cases value with
  | string text => exact obeys_pure trivial
  | _ => exact obeys_scripted hrule rfl

theorem keeps_forM_note (notes : List Note) : Keeps rule (notes.forM note : Action Unit) := by
  induction notes with
  | nil => exact obeys_pure trivial
  | cons n rest ih => exact (keeps_note hrule n).bind (fun _ _ => ih)

theorem keeps_expandPath (path : String) : Keeps rule (expandPath path) := by
  unfold expandPath
  refine obeys_get.bind (fun m _ => ?_)
  split
  · exact obeys_pure trivial
  · rename_i fault hexpand
    obtain rfl := System.expand_fault hexpand
    exact obeys_scripted hrule rfl
  · exact (keeps_forM_note hrule _).bind (fun _ _ => obeys_pure trivial)

theorem keeps_fileExists (path : String) : Keeps rule (fileExists path) :=
  (keeps_record hrule rfl).bind (fun _ _ =>
    obeys_get.bind (fun _ _ => obeys_pure trivial))

theorem keeps_readProgram (file : String) (source : List Char) :
    Keeps rule (readProgram file source) := by
  unfold readProgram
  refine obeys_get.bind (fun m _ => ?_)
  split
  · exact obeys_pure trivial
  · split
    · exact (keeps_note hrule _).bind (fun _ _ => obeys_scripted hrule rfl)
    · exact obeys_scripted hrule rfl

theorem keeps_readSource (path : String) : Keeps rule (readSource path) := by
  refine (keeps_record hrule rfl).bind (fun _ _ => obeys_get.bind (fun m _ => ?_))
  split
  · exact obeys_pure trivial
  · exact obeys_scripted hrule rfl
  · exact obeys_scripted hrule rfl

theorem keeps_compileFile (path : String) : Keeps rule (compileFile path) :=
  (keeps_readSource hrule path).bind (fun _ _ =>
    (keeps_readProgram hrule path _).bind (fun _ _ => obeys_pure trivial))

theorem obeys_refuseLibrary {α : Type} {Q : α → Prop} (path diagnostic : String) :
    Obeys rule Q (refuseLibrary path diagnostic : Action α) :=
  (keeps_note hrule _).bind (fun _ _ => obeys_scripted hrule rfl)

theorem keeps_openLibrary (path : String) : Keeps rule (openLibrary path) := by
  refine (keeps_record hrule rfl).bind (fun _ _ => obeys_get.bind (fun m _ => ?_))
  split
  · exact obeys_scripted hrule rfl
  · exact obeys_refuseLibrary hrule path _
  · exact obeys_refuseLibrary hrule path _
  · exact (keeps_record hrule rfl).bind (fun _ _ => obeys_pure trivial)

/-! ## The search, the registry and the globals -/

theorem state_replay {m : Machine} {events : List Event} (hm : rule.state m)
    (h : ∀ event ∈ events, ∀ n : Machine, n.configuration = m.configuration →
      rule.Admits n event) : rule.state (m.replay events) := by
  induction events generalizing m with
  | nil => exact hm
  | cons event events ih =>
    refine ih (hrule.event hm (h event List.mem_cons_self m rfl)) (fun e he n hn => ?_)
    rw [Machine.configuration_record] at hn
    exact h e (List.mem_cons_of_mem event he) n hn

theorem state_search {m : Machine} (hm : rule.state m) (candidates : List Candidate) :
    rule.state (m.replay (m.settling ++ probes candidates)) := by
  refine state_replay hrule hm (fun event he n hn => ?_)
  rcases List.mem_append.1 he with he | he
  -- The search path is put together from the configuration, which no event of the search touches.
  · unfold Machine.settling at he
    split at he
    · cases he
    · simp only [List.mem_cons, List.not_mem_nil, or_false] at he
      rcases he with rfl | rfl
      · exact trivial
      · exact hn.symm ▸ rfl
  · obtain ⟨c, -, he⟩ := List.mem_flatMap.1 he
    simp only [List.mem_cons, List.not_mem_nil, or_false] at he
    rcases he with rfl | rfl <;> exact trivial

theorem keeps_candidates (name : String) : Keeps rule (candidates name) := by
  intro m hm
  have hstate := state_search hrule hm []
  refine ⟨?_, fun _ _ => trivial, fun stop hstop => ?_⟩
  · rw [on_candidates]
    simpa [probes] using hstate
  · rw [on_candidates] at hstop
    cases hstop

theorem keeps_register (r : LoadedModule) : Keeps rule (register r) := by
  refine obeys_get.bind (fun m _ => ?_)
  split
  · exact keeps_record hrule rfl
  · rename_i fault hinsert
    have hfault : fault = .registeredTwice r.symbol := by
      unfold Registry.insert at hinsert
      split at hinsert
      · cases hinsert
      · exact (Except.error.inj hinsert).symm
    rw [hfault]
    exact obeys_scripted hrule rfl

theorem obeys_lookUp (name : String) (location : Script.Location) :
    Obeys rule rule.value (lookUp name location) := by
  refine obeys_get.bind (fun m hm => ?_)
  split
  · rename_i value hvalue
    exact obeys_pure (hrule.global hm hvalue)
  · exact obeys_scripted hrule rfl

theorem keeps_bindGlobal (name : Symbol) {value : Value} (h : rule.value value) :
    Keeps rule (bindGlobal name value) :=
  fun m hm => ⟨hrule.event hm (show rule.Admits m (.bound name value) from h),
    fun _ _ => trivial, fun stop hstop => by cases hstop⟩

/-! ## Scripts and libraries -/

section Loading
variable {exec : Execute} (hexec : ∀ program, Obeys rule rule.value (exec program))

include hexec

theorem obeys_loadScript (path : String) : Obeys rule rule.value (loadScript exec path) :=
  (keeps_compileFile hrule path).bind (fun _ _ =>
    (keeps_note hrule _).bind (fun _ _ => hexec _))

theorem obeys_runSource (file : String) (source : List Char) :
    Obeys rule rule.value (runSource exec file source) :=
  (keeps_readProgram hrule file source).bind (fun _ _ => hexec _)

theorem keeps_callEntryPoint (library : Library) (install : Option String) :
    Keeps rule (callEntryPoint exec library install) := by
  refine (keeps_record hrule rfl).bind (fun _ _ => ?_)
  cases install with
  | none => exact obeys_pure trivial
  | some source => exact (obeys_runSource hrule hexec installFile source.toList).keeps.discard

theorem keeps_installLibrary (path : String) : Keeps rule (installLibrary exec path) := by
  refine (keeps_openLibrary hrule path).bind (fun opened _ => obeys_get.bind (fun m _ => ?_))
  split
  · exact (keeps_callEntryPoint hrule hexec _ _).bind (fun _ _ =>
      (keeps_note hrule _).bind (fun _ _ => obeys_pure trivial))
  · exact (keeps_record hrule rfl).bind (fun _ _ => obeys_scripted hrule rfl)

theorem keeps_loadLibrary (path : String) : Keeps rule (loadLibrary exec path) :=
  (keeps_installLibrary hrule hexec path).bind (fun _ _ =>
    (keeps_record hrule rfl).bind (fun _ _ => obeys_pure trivial))

/-! ## Requires -/

theorem keeps_loadCandidate {s : Symbol} {c : Candidate} {m : Machine} (hm : rule.state m)
    (hchosen : rule.Admits m (.chosen s c)) :
    ObeysFrom rule (fun _ => True) (loadCandidate exec s c) m := by
  have hrecord : ObeysFrom rule (fun _ => True) (record (.chosen s c)) m :=
    ⟨hrule.event hm hchosen, fun _ _ => trivial, fun stop hstop => by cases hstop⟩
  refine hrecord.bind (fun _ after _ hafter _ => ?_)
  split
  · refine Obeys.bind (keeps_installLibrary hrule hexec c.path) (fun library _ => ?_) after hafter
    exact (keeps_record hrule rfl).bind (fun _ _ =>
      (keeps_register hrule _).bind (fun _ _ => obeys_pure trivial))
  · refine Obeys.bind (keeps_register hrule _) (fun _ _ => ?_) after hafter
    exact (keeps_note hrule _).bind (fun _ _ =>
      (obeys_loadScript hrule hexec c.path).keeps.discard.bind (fun _ _ => obeys_pure trivial))

theorem keeps_requireSymbol (s : Symbol) : Keeps rule (requireSymbol exec s) := by
  intro m hm
  -- Not by `Obeys.bind`: what is chosen is the first candidate only in the state searched from.
  cases h : m.registry.find? s with
  | some r =>
    have hnoted : rule.state (m.record (.noted (.alreadyLoaded s.name r.path))) :=
      hrule.event hm (Rule.admits_of_isFree rfl)
    refine .after (b := pure (.alreadyLoaded r)) (on_requireSymbol_known exec h) ?_
    exact obeys_pure trivial _ hnoted
  | none =>
    cases hfind : (m.files s.name).find? (fun c => m.system.isFile c.path) with
    | none =>
      have hnone : ∀ c ∈ m.files s.name, ¬ m.system.isFile c.path :=
        fun c hc => by simpa using List.find?_eq_none.1 hfind c hc
      have hsearch := state_search hrule hm (m.files s.name)
      have hnoted : rule.Admits (m.replay (m.settling ++ probes (m.files s.name)))
          (.noted (.notFound s.name)) := trivial
      refine .after (b := pure (.notFound s)) (on_requireSymbol_missing exec h hnone) ?_
      refine obeys_pure trivial _ ?_
      rw [Machine.replay_append]
      exact hrule.event hsearch hnoted
    | some c =>
      have hsearch := state_search hrule hm (tried m.system (m.files s.name))
      refine .after (on_requireSymbol_found exec h hfind) ?_
      rw [map_eq_pure_bind]
      refine (keeps_loadCandidate hrule hexec hsearch ?_).bind (fun _ _ _ hafter _ =>
        obeys_pure trivial _ hafter)
      exact Rule.admits_chosen h hfind _

theorem keeps_require (value : Value) : Keeps rule (require exec value) := by
  have hsymbol : Keeps rule (moduleSymbol value) := by
    cases value with
    | symbol s => exact obeys_pure trivial
    | string text => exact obeys_pure trivial
    | _ => exact obeys_scripted hrule rfl
  exact hsymbol.bind (fun s _ => keeps_requireSymbol hrule hexec s)

theorem keeps_requireOrFail (value : Value) : Keeps rule (requireOrFail exec value) := by
  refine (keeps_require hrule hexec value).bind (fun requirement _ => ?_)
  cases requirement with
  | notFound s =>
    exact (keeps_candidates hrule s.name).bind (fun _ _ => obeys_scripted hrule rfl)
  | alreadyLoaded r => exact obeys_pure trivial
  | resolved r => exact obeys_pure trivial

/-! ## Calls -/

theorem obeys_call (function : Builtin) (arguments : List Value) :
    Obeys rule rule.value (function.call exec arguments) := by
  have hplain {value : Value} (h : value.isHost = false) :
      Obeys rule rule.value (pure value : Action Value) := obeys_pure (hrule.plain h)
  have hrequirement (requirement : Requirement) : rule.value (requirementValue requirement) := by
    cases requirement <;> exact hrule.plain rfl
  cases function with
  | require =>
    exact (keeps_requireOrFail hrule hexec _).map (fun requirement _ => hrequirement requirement)
  | tryRequire =>
    exact (keeps_require hrule hexec _).map (fun requirement _ => hrequirement requirement)
  | load =>
    exact (keeps_stringOf hrule _).bind (fun path _ => obeys_loadScript hrule hexec path)
  | loadLib =>
    exact (keeps_stringOf hrule _).bind (fun path _ =>
      (keeps_loadLibrary hrule hexec path).bind (fun _ _ => hplain rfl))
  | compileFile =>
    exact (keeps_stringOf hrule _).bind (fun path _ =>
      (keeps_compileFile hrule path).bind (fun _ _ => hplain rfl))
  | fileExists =>
    exact (keeps_stringOf hrule _).bind (fun path _ =>
      (keeps_fileExists hrule path).bind (fun _ _ => hplain rfl))
  | baseName => exact (keeps_stringOf hrule _).bind (fun _ _ => hplain rfl)
  | dirName => exact (keeps_stringOf hrule _).bind (fun _ _ => hplain rfl)
  | joinPath =>
    exact (keeps_stringOf hrule _).bind (fun _ _ =>
      (keeps_stringOf hrule _).bind (fun _ _ => hplain rfl))
  | expandPath =>
    refine (keeps_stringOf hrule _).bind (fun path _ =>
      (keeps_expandPath hrule path).bind (fun expanded _ => ?_))
    cases expanded with
    | none => exact hplain rfl
    | some path => exact hplain rfl
  | print => exact (keeps_record hrule rfl).bind (fun _ _ => hplain rfl)

theorem obeys_callByName (name : String) (location : Script.Location) (arguments : List Value) :
    Obeys rule rule.value (callByName exec name location arguments) := by
  refine obeys_get.bind (fun m hm => ?_)
  split
  · exact obeys_scripted hrule rfl
  · rename_i function hfunction
    split
    · exact obeys_scripted hrule rfl
    · cases function with
      | builtin function => exact obeys_call hrule hexec function arguments
      | script compiled => exact hexec compiled.program
      | host function =>
        unfold invoke
        dsimp only
        split
        · rename_i value hcall
          exact obeys_pure (hrule.answer hm hfunction hcall)
        · rename_i failure hcall
          exact obeys_fail (hrule.refusal hm hfunction hcall)

end Loading

end Rules

/-! ## Expressions, statements and programs -/

theorem obeys_literalValue {rule : Rule} (hrule : rule.Bears) (literal : Literal) :
    Obeys rule rule.value (literalValue literal) := by
  cases literal with
  | broken text => exact obeys_throw (hrule.stop rfl)
  | _ => exact obeys_pure (hrule.plain rfl)

mutual
theorem obeys_evaluate {rule : Rule} (hrule : rule.Bears) {exec : Execute}
    (hexec : ∀ program, Obeys rule rule.value (exec program)) (file : String) :
    ∀ expression : Expression Literal, Obeys rule rule.value (evaluate exec file expression)
  | .literal value _ => obeys_literalValue hrule value
  | .symbol _ _ => obeys_pure (hrule.plain rfl)
  | .array items _ =>
    (keeps_evaluateAll hrule hexec file items).bind (fun _ _ => obeys_pure (hrule.plain rfl))
  | .reference name span => obeys_lookUp hrule name (.ofSpan file span)
  | .call name arguments span =>
    (keeps_evaluateAll hrule hexec file arguments).bind
      (fun values _ => obeys_callByName hrule hexec name (.ofSpan file span) values)

theorem keeps_evaluateAll {rule : Rule} (hrule : rule.Bears) {exec : Execute}
    (hexec : ∀ program, Obeys rule rule.value (exec program)) (file : String) :
    ∀ items : List (Expression Literal), Keeps rule (evaluateAll exec file items)
  | [] => obeys_pure trivial
  | item :: items =>
    (obeys_evaluate hrule hexec file item).bind (fun _ _ =>
      (keeps_evaluateAll hrule hexec file items).bind (fun _ _ => obeys_pure trivial))
end

section Programs
variable {rule : Rule} (hrule : rule.Bears) {exec : Execute}

include hrule

theorem obeys_evaluateStatement (hexec : ∀ program, Obeys rule rule.value (exec program))
    (file : String) (statement : Statement Literal) :
    Obeys rule rule.value (evaluateStatement exec file statement) := by
  cases statement with
  | evaluate expression => exact obeys_evaluate hrule hexec file expression
  | assign name expression span =>
    exact (obeys_evaluate hrule hexec file expression).bind (fun value hvalue =>
      (keeps_bindGlobal hrule ⟨name⟩ hvalue).bind (fun _ _ => obeys_pure hvalue))

theorem obeys_runStatements (hexec : ∀ program, Obeys rule rule.value (exec program))
    (file : String) {last : Value} (hlast : rule.value last)
    (statements : List (Statement Literal)) :
    Obeys rule rule.value (runStatements exec file last statements) := by
  induction statements generalizing last with
  | nil => exact obeys_pure hlast
  | cons statement rest ih =>
    exact (obeys_evaluateStatement hrule hexec file statement).bind (fun _ hvalue => ih hvalue)

/-- Every program keeps to the rule, however deep scripts may be nested. -/
theorem obeys_execute (depth : Nat) (program : Program) :
    Obeys rule rule.value (execute depth program) := by
  induction depth generalizing program with
  | zero => exact obeys_throw (hrule.stop rfl)
  | succ depth ih =>
    exact (keeps_note hrule _).bind (fun _ _ =>
      obeys_runStatements hrule ih program.file (hrule.plain rfl) program.statements)

end Programs

end ModuleLoader
