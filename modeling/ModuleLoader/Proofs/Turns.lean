import ModuleLoader.Proofs.Evaluation
import ModuleLoader.Session

/-!
# The moments of a run

What a host asks of a loader takes a course too, so that whatever is true of courses is true of the
outcomes of a run, and each moment of a run leads to the later ones by events that may happen.

* `perform_conduct`, `observe_conduct` : an operation takes a course, which is what its outcome
  tells;
* `builtins_perform` : what an operation does to the functions;
* `Machine.Leads` : events that may happen lead from one state to another;
* `Machine.passes`, `moments` : the states that events pass through, and those of a run;
* `pairwise_moments`, `leads_of_mem_moments` : a moment leads to the later ones, and the start to
  all of them;
* `finalState` : where a run ends;
* `exists_conduct`, `runTurns_induction` : how the outcomes of a run are reasoned about.
-/

namespace ModuleLoader

open ModuleLoader.Action

/-! ## Operations -/

theorem orderly_symbolOf (value : Value) : (symbolOf value).Orderly := by
  cases value with
  | symbol s => exact orderly_pure s
  | string text => exact orderly_pure (⟨text⟩ : Symbol)
  | _ => exact orderly_fail rfl

theorem orderly_useSearchPath : useSearchPath.Orderly := by
  intro m
  refine ⟨m.settling, ?_, ?_⟩
  · rw [on_useSearchPath]
  · rw [on_useSearchPath]
    exact conduct_settling m

/-- The operation changes neither the system nor the functions, and keeps the loader. -/
def Operation.isInternal : Operation → Bool
  | .define _ _ | .write _ _ | .delete _ | .enter _ | .setEnvironment _ | .restart => false
  | _ => true

theorem orderly_perform (settings : Settings) (depth : Nat) {operation : Operation}
    (internal : operation.isInternal) : (perform settings depth operation).Orderly := by
  have hexec := orderly_execute depth
  cases operation with
  | runSource file source => exact (orderly_runSource hexec _ _).map _
  | require value => exact (orderly_require hexec value).map _
  | requireOrFail value => exact (orderly_requireOrFail hexec value).map _
  | loadScript path =>
      exact (orderly_stringOf path).bind (fun path =>
        (orderly_loadScript hexec path).bind (fun _ => orderly_pure _))
  | compileFile path =>
      exact (orderly_stringOf path).bind (fun path =>
        (orderly_compileFile path).bind (fun _ => orderly_pure _))
  | loadLibrary path =>
      exact (orderly_stringOf path).bind (fun path =>
        (orderly_loadLibrary hexec path).bind (fun _ => orderly_pure _))
  | call function arguments => exact (orderly_call hexec function arguments).map _
  | callScript compiled => exact (hexec compiled.program).map _
  | isLoaded value =>
      exact (orderly_symbolOf value).bind (fun _ => orderly_get.bind (fun _ => orderly_pure _))
  | modules => exact orderly_get.bind (fun _ => orderly_pure _)
  | searchPath => exact orderly_useSearchPath.bind (fun _ => orderly_pure _)
  | extensions => exact orderly_get.bind (fun _ => orderly_pure _)
  | candidates name => exact (orderly_candidates name).map _
  | bindGlobal name value =>
      exact (orderly_symbolOf name).bind (fun _ =>
        (orderly_record rfl).bind (fun _ => orderly_pure _))
  | getGlobal name default =>
      exact (orderly_symbolOf name).bind (fun _ => orderly_get.bind (fun _ => orderly_pure _))
  | hasGlobal name =>
      exact (orderly_symbolOf name).bind (fun _ => orderly_get.bind (fun _ => orderly_pure _))
  | globals => exact orderly_get.bind (fun _ => orderly_pure _)
  | exeDir => exact orderly_get.bind (fun _ => orderly_pure _)
  | environment => exact orderly_get.bind (fun _ => orderly_pure _)
  | _ => cases internal

theorem perform_conduct (settings : Settings) (depth : Nat) (operation : Operation)
    (keeps : operation.startsAfresh = false) (m : Machine) :
    ∃ events, ((perform settings depth operation).on m).2.Agree (m.replay events) ∧
      Conduct m events (stop? ((perform settings depth operation).on m).1) := by
  by_cases internal : operation.isInternal
  · obtain ⟨events, hafter, hc⟩ := orderly_perform settings depth internal m
    exact ⟨events, hafter ▸ Machine.Agree.refl _, hc⟩
  · cases operation with
    | define name function =>
        cases name with
        | symbol s => exact ⟨[], ⟨rfl, rfl, rfl, rfl, rfl⟩, .done⟩
        | string text => exact ⟨[], ⟨rfl, rfl, rfl, rfl, rfl⟩, .done⟩
        | _ => exact ⟨[], ⟨rfl, rfl, rfl, rfl, rfl⟩, .halt rfl⟩
    | write path node => exact ⟨[], ⟨rfl, rfl, rfl, rfl, rfl⟩, .done⟩
    | delete path => exact ⟨[], ⟨rfl, rfl, rfl, rfl, rfl⟩, .done⟩
    | enter path => exact ⟨[], ⟨rfl, rfl, rfl, rfl, rfl⟩, .done⟩
    | setEnvironment environment => exact ⟨[], ⟨rfl, rfl, rfl, rfl, rfl⟩, .done⟩
    | restart => cases keeps
    | _ => exact absurd rfl internal

/-- Of the operations on one loader, only that which defines a function changes the functions. -/
theorem builtins_perform (settings : Settings) (depth : Nat) (operation : Operation)
    (keeps : operation.startsAfresh = false) (m : Machine) :
    ((perform settings depth operation).on m).2.builtins = m.builtins ∨
      ∃ s function, ((perform settings depth operation).on m).2.builtins =
        m.builtins.set s (.host function) := by
  by_cases internal : operation.isInternal
  · obtain ⟨events, hafter, -⟩ := orderly_perform settings depth internal m
    rw [hafter, Machine.builtins_replay]
    exact Or.inl rfl
  · cases operation with
    | define name function =>
        cases name with
        | symbol s => exact Or.inr ⟨s, function, rfl⟩
        | string text => exact Or.inr ⟨⟨text⟩, function, rfl⟩
        | _ => exact Or.inl rfl
    | restart => cases keeps
    | _ => first | exact Or.inl rfl | exact absurd rfl internal

theorem since_of_agree {m after : Machine} {events : List Event}
    (h : after.Agree (m.replay events)) : after.since m = events := by
  unfold Machine.since
  rw [h.trace, Machine.trace_replay]
  simp

theorem observe_conduct (settings : Settings) (t : Turn) (m : Machine) :
    let observed := observe (perform settings t.depth t.operation) m
    observed.2.Agree (m.replay observed.1.events) ∧
      Conduct m observed.1.events (stop? observed.1.result) := by
  obtain ⟨events, hafter, hc⟩ := perform_conduct settings t.depth t.operation t.keeps m
  have hevents : (observe (perform settings t.depth t.operation) m).1.events = events :=
    since_of_agree hafter
  dsimp only
  rw [hevents]
  exact ⟨hafter, hc⟩

theorem observe_course (settings : Settings) (t : Turn) (m : Machine) :
    let observed := observe (perform settings t.depth t.operation) m
    observed.2.Agree (m.replay observed.1.events) ∧
      Course m observed.1.events (stop? observed.1.result) := by
  obtain ⟨hafter, hc⟩ := observe_conduct settings t m
  exact ⟨hafter, hc.course⟩

/-! ## Moments -/

namespace Machine

/-- Events that may happen lead from the one state to the other, up to the system and the
functions. -/
def Leads (m n : Machine) : Prop := ∃ events, m.AllowsAll events ∧ n.Agree (m.replay events)

namespace Leads
variable {m n o : Machine}

theorem refl (m : Machine) : m.Leads m := ⟨[], trivial, Agree.refl m⟩

theorem trans (h : m.Leads n) (h' : n.Leads o) : m.Leads o := by
  obtain ⟨events, hallows, hn⟩ := h
  obtain ⟨others, hothers, ho⟩ := h'
  exact ⟨events ++ others, allowsAll_append.2 ⟨hallows, hn.allowsAll hothers⟩, hn.append ho⟩

theorem configuration (h : m.Leads n) : n.configuration = m.configuration := by
  obtain ⟨events, -, hn⟩ := h
  rw [hn.configuration, configuration_replay]

theorem modules_prefix (h : m.Leads n) : m.registry.modules <+: n.registry.modules := by
  obtain ⟨events, -, hn⟩ := h
  rw [hn.registry]
  exact prefix_replay m events

theorem distinct (h : m.Leads n) (hm : m.registry.Distinct) : n.registry.Distinct := by
  obtain ⟨events, -, hn⟩ := h
  rw [hn.registry]
  exact distinct_replay hm events

theorem allowsAll_since (h : m.Leads n) :
    m.AllowsAll (n.since m) ∧ n.Agree (m.replay (n.since m)) := by
  obtain ⟨events, hallows, hn⟩ := h
  rw [since_of_agree hn]
  exact ⟨hallows, hn⟩

theorem searchPath (h : m.Leads n) (hm : m.searchPath = none) :
    n.searchPath.getD n.configuration.searchPath = m.configuration.searchPath := by
  have hconfiguration := h.configuration
  obtain ⟨events, hallows, hn⟩ := h
  have hsettled := hallows.searchPath (fun directories hd => by rw [hm] at hd; cases hd)
  rw [← hn.searchPath] at hsettled
  cases hpath : n.searchPath with
  | none => rw [Option.getD_none, hconfiguration]
  | some directories => exact hsettled directories hpath

end Leads

/-- The states that events pass through, the first and the last one included. -/
def passes : Machine → List Event → List Machine
  | m, [] => [m]
  | m, event :: events => m :: (m.record event).passes events

theorem leads_of_mem_passes {m : Machine} {events : List Event} (h : m.AllowsAll events)
    {x : Machine} (hx : x ∈ m.passes events) : m.Leads x ∧ x.Leads (m.replay events) := by
  induction events generalizing m with
  | nil =>
      obtain rfl := List.mem_singleton.1 hx
      exact ⟨.refl x, .refl x⟩
  | cons event events ih =>
      obtain ⟨hallows, hrest⟩ := h
      have hstep : m.Leads (m.record event) := ⟨[event], ⟨hallows, trivial⟩, Agree.refl _⟩
      have hall : m.Leads (m.replay (event :: events)) :=
        ⟨event :: events, ⟨hallows, hrest⟩, Agree.refl _⟩
      rcases List.mem_cons.1 hx with rfl | hx
      · exact ⟨.refl x, hall⟩
      · obtain ⟨hfirst, hlast⟩ := ih hrest hx
        exact ⟨hstep.trans hfirst, hlast⟩

theorem pairwise_passes {m : Machine} {events : List Event} (h : m.AllowsAll events) :
    (m.passes events).Pairwise Leads := by
  induction events generalizing m with
  | nil => exact List.pairwise_singleton _ _
  | cons event events ih =>
      obtain ⟨hallows, hrest⟩ := h
      have hstep : m.Leads (m.record event) := ⟨[event], ⟨hallows, trivial⟩, Agree.refl _⟩
      refine List.pairwise_cons.2 ⟨fun x hx => ?_, ih hrest⟩
      exact hstep.trans (leads_of_mem_passes hrest hx).1

end Machine

/-- The states of a run, one after another: those that the events of each turn pass through, since
nothing else changes the state while scripts run, and that in which the turn leaves the loader. -/
def moments (settings : Settings) : Machine → List Turn → List Machine
  | m, [] => [m]
  | m, t :: rest =>
    let (outcome, after) := observe (perform settings t.depth t.operation) m
    m.passes outcome.events ++ moments settings after rest

theorem runTurns_cons (settings : Settings) (m : Machine) (t : Turn) (rest : List Turn) :
    runTurns settings m (t :: rest) =
      (observe (perform settings t.depth t.operation) m).1 ::
        runTurns settings (observe (perform settings t.depth t.operation) m).2 rest := rfl

theorem leads_of_turn (settings : Settings) (t : Turn) (m : Machine) :
    m.Leads (observe (perform settings t.depth t.operation) m).2 := by
  obtain ⟨hafter, hc⟩ := observe_course settings t m
  exact ⟨_, hc.allowsAll, hafter⟩

theorem leads_of_mem_moments {settings : Settings} {m x : Machine} {turns : List Turn}
    (hx : x ∈ moments settings m turns) : m.Leads x := by
  induction turns generalizing m with
  | nil =>
      obtain rfl := List.mem_singleton.1 hx
      exact .refl x
  | cons t rest ih =>
      obtain ⟨-, hc⟩ := observe_course settings t m
      rcases List.mem_append.1 hx with hx | hx
      · exact (Machine.leads_of_mem_passes hc.allowsAll hx).1
      · exact (leads_of_turn settings t m).trans (ih hx)

theorem pairwise_moments (settings : Settings) (m : Machine) (turns : List Turn) :
    (moments settings m turns).Pairwise Machine.Leads := by
  induction turns generalizing m with
  | nil => exact List.pairwise_singleton _ _
  | cons t rest ih =>
      obtain ⟨hafter, hc⟩ := observe_course settings t m
      refine List.pairwise_append.2 ⟨Machine.pairwise_passes hc.allowsAll, ih _, ?_⟩
      intro x hx y hy
      have hend : (m.replay (observe (perform settings t.depth t.operation) m).1.events).Leads
          (observe (perform settings t.depth t.operation) m).2 := ⟨[], trivial, hafter⟩
      exact (Machine.leads_of_mem_passes hc.allowsAll hx).2.trans
        (hend.trans (leads_of_mem_moments hy))

def finalState (settings : Settings) : Machine → List Turn → Machine
  | m, [] => m
  | m, t :: rest => finalState settings (observe (perform settings t.depth t.operation) m).2 rest

theorem exists_conduct {settings : Settings} {m : Machine} {turns : List Turn}
    {o : Outcome Answer} (ho : o ∈ runTurns settings m turns) :
    ∃ n, Conduct n o.events (stop? o.result) := by
  induction turns generalizing m with
  | nil => cases ho
  | cons t rest ih =>
      rw [runTurns_cons] at ho
      rcases List.mem_cons.1 ho with rfl | ho
      · exact ⟨m, (observe_conduct settings t m).2⟩
      · exact ih ho

/-- What is true of the course of each turn is true of each outcome. -/
theorem runTurns_induction (settings : Settings) {P : Outcome Answer → Prop}
    (h : ∀ (m : Machine) (o : Outcome Answer), Course m o.events (stop? o.result) → P o)
    (m : Machine) (turns : List Turn) : ∀ o ∈ runTurns settings m turns, P o := by
  intro o ho
  obtain ⟨n, hc⟩ := exists_conduct ho
  exact h n o hc.course

end ModuleLoader
