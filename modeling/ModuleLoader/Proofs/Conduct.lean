import ModuleLoader.Proofs.Course

/-!
# Loads of libraries

A library is loaded for a module or by its path. Its file is consulted, it is opened, and at once it
is closed again or its entry point is called. Then it gets its record or goes to who asked for it,
unless something stops before.

* `Machine.exposes`, `Machine.answer` : whether a library has the entry point, and so what follows
  its opening;
* `Machine.opening` : how the load of a library begins, once the file can be opened;
* `Ending` : how it ends behind the entry point;
* `Conduct` : what happens from a state on, with each load of a library in one piece;
* `Conduct.course` : it is a course.
-/

namespace ModuleLoader

/-- The event is no step of a load and leaves libraries alone. -/
def Event.isAside : Event → Bool
  | .printed _ | .bound _ _ => true
  | .consulted .load _ => false
  | .consulted _ _ => true
  | .noted (.loadingScript _ _) => false
  | .noted _ => true
  | _ => false

theorem Event.isPlain_of_isAside {event : Event} (h : event.isAside) : event.isPlain := by
  cases event with
  | noted n => cases n <;> first | rfl | cases h
  | _ => first | rfl | cases h

namespace Machine

/-- The file at a path is a library with the entry point that the loader expects. -/
def exposes (m : Machine) (path : String) : Bool :=
  match m.system.openImage path with
  | .ok (.opens entryPoint _) => entryPoint = some m.configuration.entryPoint
  | _ => false

/-- What follows the opening of the library at a path. -/
def answer (m : Machine) (path : String) : LibraryStep :=
  if m.exposes path then .installed else .closed

/-- The library at a path as it would be opened next. -/
def next (m : Machine) (path : String) : Library := ⟨path, m.openedCount + 1⟩

/-- What happens to a library up to the answer to its opening. -/
def opening (m : Machine) (path : String) : List Event :=
  [.consulted .load path, .library .opened path (m.next path).handle,
    .library (m.answer path) path (m.next path).handle]

@[simp] theorem exposes_replay (m : Machine) (events : List Event) (path : String) :
    (m.replay events).exposes path = m.exposes path := by
  simp only [exposes, system_replay, configuration_replay]

theorem answer_replay (m : Machine) (events : List Event) (path : String) :
    (m.replay events).answer path = m.answer path := by
  rw [answer, exposes_replay, answer]

end Machine

/-- The choice of a library for a symbol, if it is loaded for one. -/
def asked (path : String) : Option Symbol → List Event
  | none => []
  | some s => [.chosen s ⟨path, .nativeLibrary⟩]

section
variable (path : String) (asking : Option Symbol) (m : Machine)

@[simp] theorem next_asked : (m.replay (asked path asking)).next path = m.next path := by
  cases asking <;> simp [Machine.next, Machine.openedCount, asked]

@[simp] theorem opening_asked : (m.replay (asked path asking)).opening path = m.opening path := by
  rw [Machine.opening, Machine.answer_replay, next_asked, Machine.opening]

end

/-- How the load of a library ends, from the state in which its entry point came back. -/
inductive Ending (library : Library) (n : Machine) :
    Option Symbol → List Event → Option Stop → Prop
  | handed : Ending library n none [.handed library] none
  /-- The module gets its record. -/
  | recorded {s : Symbol} (still : n.registry.find? s = none) :
    Ending library n (some s) [.delivered s library,
      .registered ⟨s, .nativeLibrary, library.path, some library⟩] none
  /-- The module is refused its record where the symbol got one in the meantime. -/
  | refused {s : Symbol} (taken : n.registry.find? s ≠ none) :
    Ending library n (some s) [.delivered s library] (some (.fault (.registeredTwice s)))

/-- What happens from a state on, and why it stops if it is not simply over. -/
inductive Conduct : Machine → List Event → Option Stop → Prop
  | done {m : Machine} : Conduct m [] none
  /-- Something stops for a reason of its own. -/
  | halt {m : Machine} {stop : Stop} (other : stop.isRefusedRecord = false) :
      Conduct m [] (some stop)
  | aside {m : Machine} {event : Event} (aside : event.isAside) : Conduct m [event] none
  | settled {m : Machine} : Conduct m [.settled m.configuration.searchPath] none
  | append {m : Machine} {events others : List Event} {stop : Option Stop}
      (first : Conduct m events none) (rest : Conduct (m.replay events) others stop) :
      Conduct m (events ++ others) stop
  | script {m : Machine} {s : Symbol} {path : String} {events : List Event} {stop : Option Stop}
      (new : m.registry.find? s = none)
      (run : Conduct (m.replay (scriptOpening s path)) events stop) :
      Conduct m (scriptOpening s path ++ events) stop
  /-- The file cannot be opened. -/
  | unopened {m : Machine} {path : String} {asking : Option Symbol} {events : List Event}
      {stop : Stop} (new : ∀ s ∈ asking, m.registry.find? s = none)
      (aside : ∀ event ∈ events, event.isAside) (other : stop.isRefusedRecord = false) :
      Conduct m (asked path asking ++ .consulted .load path :: events) (some stop)
  /-- The library has no entry point. -/
  | rejected {m : Machine} {path : String} {asking : Option Symbol} {stop : Stop}
      (new : ∀ s ∈ asking, m.registry.find? s = none) (hides : m.exposes path = false)
      (other : stop.isRefusedRecord = false) :
      Conduct m (asked path asking ++ m.opening path) (some stop)
  /-- What the entry point runs stops. -/
  | raised {m : Machine} {path : String} {asking : Option Symbol} {events : List Event}
      {stop : Stop} (new : ∀ s ∈ asking, m.registry.find? s = none) (exposes : m.exposes path)
      (run : Conduct (m.replay (asked path asking ++ m.opening path)) events (some stop)) :
      Conduct m (asked path asking ++ m.opening path ++ events) (some stop)
  | load {m : Machine} {path : String} {asking : Option Symbol} {events ending : List Event}
      {stop : Option Stop} (new : ∀ s ∈ asking, m.registry.find? s = none)
      (exposes : m.exposes path)
      (run : Conduct (m.replay (asked path asking ++ m.opening path)) events none)
      (ends : Ending (m.next path) (m.replay (asked path asking ++ m.opening path ++ events))
        asking ending stop) :
      Conduct m (asked path asking ++ m.opening path ++ events ++ ending) stop

theorem Conduct.cons {m : Machine} {event : Event} {events : List Event} {stop : Option Stop}
    (h : event.isAside) (rest : Conduct (m.record event) events stop) :
    Conduct m (event :: events) stop :=
  .append (.aside h) rest

/-! ## It is a course -/

theorem course_plain {m : Machine} {events : List Event} (h : ∀ event ∈ events, event.isPlain) :
    Course m events none := by
  induction events generalizing m with
  | nil => exact .done
  | cons event events ih =>
    refine .cons (h event List.mem_cons_self) (ih (fun e he => ?_))
    exact h e (List.mem_cons_of_mem event he)

theorem course_asked {m : Machine} {path : String} {asking : Option Symbol} {events : List Event}
    {stop : Stop} (new : ∀ s ∈ asking, m.registry.find? s = none)
    (run : Course (m.replay (asked path asking)) events (some stop)) :
    Course m (asked path asking ++ events) (some stop) := by
  cases asking with
  | none => exact run
  | some s => exact .abandoned (new s rfl) run

theorem course_opening (m : Machine) (path : String) : Course m (m.opening path) none := by
  have hcount : (m.record (.consulted .load path)).openedCount = m.openedCount := by
    simp [Machine.openedCount]
  refine .cons rfl (.incident ?_)
  unfold Machine.answer Machine.next
  rw [← hcount]
  split
  · exact .installed path
  · exact .closed path

theorem course_called {m : Machine} {path : String} {asking : Option Symbol} {events : List Event}
    {stop : Option Stop}
    (run : Course (m.replay (asked path asking ++ m.opening path)) events stop) :
    Course (m.replay (asked path asking)) (m.opening path ++ events) stop := by
  have hopening := course_opening (m.replay (asked path asking)) path
  rw [opening_asked] at hopening
  rw [Machine.replay_append] at run
  exact hopening.append run

theorem course_load {m : Machine} {path : String} {asking : Option Symbol}
    {events ending : List Event} {stop : Option Stop}
    (new : ∀ s ∈ asking, m.registry.find? s = none)
    (run : Course (m.replay (asked path asking ++ m.opening path)) events none)
    (ends : Ending (m.next path) (m.replay (asked path asking ++ m.opening path ++ events))
      asking ending stop) :
    Course m (asked path asking ++ m.opening path ++ events ++ ending) stop := by
  have hrun := course_called run
  rw [List.append_assoc (asked path asking), Machine.replay_append] at ends
  rw [List.append_assoc (asked path asking)]
  cases ends with
  | handed => exact hrun.append (.incident (.plain rfl))
  | @recorded s still =>
    have hload := Course.native (m.next path) (new s rfl) hrun still
    rw [List.append_assoc]
    exact hload
  | @refused s taken =>
    have hload := Course.refused (m.next path) (new s rfl) hrun taken
    rw [List.append_assoc]
    exact hload

theorem Conduct.course {m : Machine} {events : List Event} {stop : Option Stop}
    (h : Conduct m events stop) : Course m events stop := by
  induction h with
  | done => exact .done
  | halt other => exact .halt other
  | aside aside => exact .incident (.plain (Event.isPlain_of_isAside aside))
  | settled => exact .incident .settled
  | append _ _ ihf ihr => exact .append ihf ihr
  | script new _ ih => exact .script new ih
  | @unopened m path asking events stop new aside other =>
    have hplain : ∀ event ∈ events, event.isPlain :=
      fun event he => Event.isPlain_of_isAside (aside event he)
    have hstops := (course_plain (m := (m.replay (asked path asking)).record
      (.consulted .load path)) hplain).append (.halt other)
    rw [List.append_nil] at hstops
    exact course_asked new (.cons rfl hstops)
  | @rejected m path asking stop new hides other =>
    have hstops := (course_opening (m.replay (asked path asking)) path).append (.halt other)
    rw [opening_asked, List.append_nil] at hstops
    exact course_asked new hstops
  | @raised m path asking events stop new exposes _ ih =>
    rw [List.append_assoc]
    exact course_asked new (course_called ih)
  | load new exposes _ ends ih => exact course_load new ih ends

end ModuleLoader
