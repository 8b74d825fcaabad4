import ModuleLoader.Proofs.Turns

/-!
# The life cycle of libraries

However loads of libraries are nested and whatever stops them, the opening of a library is answered
before anything else happens to a library.

* `LibraryEvent`, `Machine.libraryStory`, `libraryStory` : what happens to libraries, each time with
  the state in which it does, in the course of events and in a run;
* `handlesIn` : the handles for which events tell a step;
* `Paired` : libraries are opened under one handle after another, and each is answered at once;
* `Conduct.pairs`, `paired_libraryStory` : so they are in each course, and in each run;
* `LifeCycle`, `libraries_lifeCycle` : what this says of each handle.
-/

namespace ModuleLoader

/-- Something that happens to a library, and the state in which it does. -/
structure LibraryEvent where
  state : Machine
  step : LibraryStep
  path : String
  handle : Nat

namespace Event

/-- The event is about a library, and happens in this state. -/
def onLibrary? (m : Machine) : Event → Option LibraryEvent
  | .library step path handle => some ⟨m, step, path, handle⟩
  | _ => none

def isSilent : Event → Bool
  | .library _ _ _ => false
  | _ => true

def handle? (step : LibraryStep) : Event → Option Nat
  | .library s _ handle => if s = step then some handle else none
  | _ => none

theorem onLibrary?_of_isSilent {event : Event} (h : event.isSilent) (m : Machine) :
    event.onLibrary? m = none := by
  cases event with
  | library => cases h
  | _ => rfl

theorem handle?_of_isSilent {event : Event} (h : event.isSilent) (step : LibraryStep) :
    event.handle? step = none := by
  cases event with
  | library => cases h
  | _ => rfl

theorem isSilent_of_isAside {event : Event} (h : event.isAside) : event.isSilent := by
  cases event with
  | library => cases h
  | _ => rfl

end Event

def handlesIn (step : LibraryStep) (events : List Event) : List Nat :=
  events.filterMap (Event.handle? step)

@[simp] theorem handlesIn_nil (step : LibraryStep) : handlesIn step [] = [] := rfl

@[simp] theorem handlesIn_append (step : LibraryStep) (events others : List Event) :
    handlesIn step (events ++ others) = handlesIn step events ++ handlesIn step others :=
  List.filterMap_append

namespace LibraryEvent

def told (e : LibraryEvent) : LibraryStep × String × Nat := (e.step, e.path, e.handle)

/-- What happens to the library next, as it should: its entry point is called if it has one, and
else it is closed. -/
structure Answers (x y : LibraryEvent) : Prop where
  step : y.step = x.state.answer x.path
  path : y.path = x.path
  handle : y.handle = x.handle

end LibraryEvent

/-! ## Stories -/

namespace Machine

/-- What happens to libraries in the course of events. -/
def libraryStory : Machine → List Event → List LibraryEvent
  | _, [] => []
  | m, event :: events => (event.onLibrary? m).toList ++ (m.record event).libraryStory events

@[simp] theorem libraryStory_nil (m : Machine) : m.libraryStory [] = [] := rfl

theorem libraryStory_append (m : Machine) (events others : List Event) :
    m.libraryStory (events ++ others) =
      m.libraryStory events ++ (m.replay events).libraryStory others := by
  induction events generalizing m with
  | nil => rfl
  | cons event events ih =>
    rw [List.cons_append, libraryStory, ih, libraryStory, List.append_assoc, replay_cons]

theorem libraryStory_silent {events : List Event} (h : ∀ event ∈ events, event.isSilent)
    (m : Machine) : m.libraryStory events = [] := by
  induction events generalizing m with
  | nil => rfl
  | cons event events ih =>
    have hfirst := Event.onLibrary?_of_isSilent (h event List.mem_cons_self) m
    rw [libraryStory, hfirst, ih (fun e he => h e (List.mem_cons_of_mem _ he))]
    rfl

theorem map_told_libraryStory (m : Machine) (events : List Event) :
    (m.libraryStory events).map LibraryEvent.told = libraryEvents events := by
  induction events generalizing m with
  | nil => rfl
  | cons event events ih =>
    rw [libraryStory, List.map_append, ih]
    cases event <;> rfl

theorem openedCount_record (m : Machine) (event : Event) :
    (m.record event).openedCount = m.openedCount + (event.handle? .opened).toList.length := by
  unfold openedCount
  rw [trace_record, List.countP_cons]
  cases event with
  | library step path handle => cases step <;> rfl
  | _ => rfl

theorem openedCount_replay (m : Machine) (events : List Event) :
    (m.replay events).openedCount = m.openedCount + (handlesIn .opened events).length := by
  induction events generalizing m with
  | nil => rfl
  | cons event events ih =>
    rw [replay_cons, ih, openedCount_record]
    cases h : event.handle? .opened with
    | none =>
      simp [handlesIn, h]
    | some handle =>
      simp only [handlesIn, List.filterMap_cons, h, Option.toList_some, List.length_cons,
        List.length_nil]
      omega

theorem answer_ne_opened (m : Machine) (path : String) : m.answer path ≠ .opened := by
  unfold answer
  split
  · exact LibraryStep.noConfusion
  · exact LibraryStep.noConfusion

end Machine

def handlesOf (step : LibraryStep) (story : List LibraryEvent) : List Nat :=
  story.filterMap (fun e => if e.step = step then some e.handle else none)

theorem handlesOf_libraryStory (step : LibraryStep) (m : Machine) (events : List Event) :
    handlesOf step (m.libraryStory events) = handlesIn step events := by
  induction events generalizing m with
  | nil => rfl
  | cons event events ih =>
    unfold handlesOf at ih ⊢
    rw [Machine.libraryStory, List.filterMap_append, ih, handlesIn, handlesIn,
      List.filterMap_cons]
    cases event with
    | library s path handle => by_cases hs : s = step <;> simp [Event.onLibrary?, Event.handle?, hs]
    | _ => rfl

/-! ## Pairs -/

/-- After so many libraries, further ones are opened under one handle after another, and each is
answered before the next one is opened; after that there are so many. -/
inductive Paired : Nat → List LibraryEvent → Nat → Prop
  | nil {n : Nat} : Paired n [] n
  | pair {n k : Nat} {x y : LibraryEvent} {rest : List LibraryEvent} (opened : x.step = .opened)
      (numbered : x.handle = n + 1) (answers : x.Answers y) (others : Paired (n + 1) rest k) :
      Paired n (x :: y :: rest) k

namespace Paired
variable {n k l : Nat} {story others : List LibraryEvent}

theorem append (h : Paired n story k) (h' : Paired k others l) : Paired n (story ++ others) l := by
  induction h with
  | nil => exact h'
  | pair opened numbered answers _ ih => exact .pair opened numbered answers (ih h')

theorem handlesOf_opened (h : Paired n story k) :
    handlesOf .opened story = List.range' (n + 1) (handlesOf .opened story).length := by
  induction h with
  | nil => rfl
  | @pair n k x y rest opened numbered answers _ ih =>
    have hlater : y.step ≠ .opened := answers.step ▸ x.state.answer_ne_opened x.path
    have hcons : handlesOf .opened (x :: y :: rest) = (n + 1) :: handlesOf .opened rest := by
      simp [handlesOf, opened, numbered, hlater]
    rw [hcons, List.length_cons, List.range'_succ]
    exact congrArg _ ih

theorem perm (h : Paired n story k) :
    (handlesOf .opened story).Perm (handlesOf .closed story ++ handlesOf .installed story) := by
  induction h with
  | nil => exact .refl _
  | @pair n k x y rest opened numbered answers _ ih =>
    have hstep := answers.step
    have hhandle := answers.handle
    unfold Machine.answer at hstep
    split at hstep
    · simp only [handlesOf, List.filterMap_cons, opened, hstep, hhandle, if_true, reduceCtorEq,
        if_false]
      exact (ih.cons _).trans List.perm_middle.symm
    · simp only [handlesOf, List.filterMap_cons, opened, hstep, hhandle, if_true, reduceCtorEq,
        if_false]
      exact ih.cons _

theorem nodup_opened (h : Paired n story k) : (handlesOf .opened story).Nodup := by
  rw [h.handlesOf_opened]
  exact List.nodup_range'

theorem answered (h : Paired n story k) {i : Nat} {x : LibraryEvent} (hx : story[i]? = some x)
    (opened : x.step = .opened) : ∃ y, story[i + 1]? = some y ∧ x.Answers y := by
  induction h generalizing i with
  | nil => cases hx
  | @pair n k first second rest _ _ answers _ ih =>
    match i with
    | 0 =>
      cases hx
      exact ⟨second, rfl, answers⟩
    | 1 =>
      cases hx
      exact absurd opened (answers.step ▸ first.state.answer_ne_opened first.path)
    | i + 2 => exact ih hx

theorem announced (h : Paired n story k) {i : Nat} {y : LibraryEvent} (hy : story[i]? = some y)
    (later : y.step ≠ .opened) :
    ∃ j x, i = j + 1 ∧ story[j]? = some x ∧ x.step = .opened ∧ x.Answers y := by
  induction h generalizing i with
  | nil => cases hy
  | @pair n k first second rest opened _ answers _ ih =>
    match i with
    | 0 =>
      cases hy
      exact absurd opened later
    | 1 =>
      cases hy
      exact ⟨0, first, rfl, rfl, opened, answers⟩
    | i + 2 =>
      obtain ⟨j, x, rfl, hx, hopened, hanswers⟩ := ih hy
      exact ⟨j + 2, x, rfl, hx, hopened, hanswers⟩

end Paired

/-! ## Courses -/

/-- From this state on, the libraries of events come in pairs. -/
def Machine.Pairs (m : Machine) (events : List Event) : Prop :=
  Paired m.openedCount (m.libraryStory events) (m.replay events).openedCount

namespace Machine.Pairs
variable {m : Machine} {events others : List Event}

theorem append (h : m.Pairs events) (h' : (m.replay events).Pairs others) :
    m.Pairs (events ++ others) := by
  unfold Machine.Pairs
  rw [Machine.libraryStory_append, Machine.replay_append]
  exact Paired.append h h'

theorem silent (h : ∀ event ∈ events, event.isSilent) : m.Pairs events := by
  have hnone : handlesIn .opened events = [] :=
    List.filterMap_eq_nil_iff.2 (fun e he => Event.handle?_of_isSilent (h e he) .opened)
  unfold Machine.Pairs
  rw [Machine.libraryStory_silent h, Machine.openedCount_replay, hnone]
  exact .nil

theorem opening (m : Machine) (path : String) : m.Pairs (m.opening path) := by
  have hanswer : (m.record (.consulted .load path)).answer path = m.answer path :=
    m.answer_replay [.consulted .load path] path
  have hcount : (handlesIn .opened (m.opening path)).length = 1 := by
    have hlater := m.answer_ne_opened path
    simp [handlesIn, Machine.opening, List.filterMap_cons, Event.handle?, hlater]
  unfold Machine.Pairs
  rw [Machine.openedCount_replay, hcount]
  exact .pair rfl rfl ⟨hanswer.symm, rfl, rfl⟩ .nil

end Machine.Pairs

theorem isSilent_scriptOpening (s : Symbol) (path : String) :
    ∀ event ∈ scriptOpening s path, event.isSilent := by
  simp [scriptOpening, Event.isSilent]

theorem isSilent_asked (path : String) (asking : Option Symbol) :
    ∀ event ∈ asked path asking, event.isSilent := by
  cases asking <;> simp [asked, Event.isSilent]

theorem Ending.isSilent {library : Library} {n : Machine} {asking : Option Symbol}
    {ending : List Event} {stop : Option Stop} (h : Ending library n asking ending stop) :
    ∀ event ∈ ending, event.isSilent := by
  cases h <;> simp [Event.isSilent]

theorem pairs_asked_opening (m : Machine) (path : String) (asking : Option Symbol) :
    m.Pairs (asked path asking ++ m.opening path) := by
  have hopening := Machine.Pairs.opening (m.replay (asked path asking)) path
  rw [opening_asked] at hopening
  exact .append (.silent (isSilent_asked path asking)) hopening

/-- In each course libraries come in pairs, by induction on the course: what an entry point runs
begins behind the pair of its library. -/
theorem Conduct.pairs {m : Machine} {events : List Event} {stop : Option Stop}
    (h : Conduct m events stop) : m.Pairs events := by
  induction h with
  | done | halt => exact .nil
  | aside aside => exact .silent (by simpa using Event.isSilent_of_isAside aside)
  | settled => exact .silent (by simp [Event.isSilent])
  | append _ _ ihf ihr => exact ihf.append ihr
  | script _ _ ih => exact .append (.silent (isSilent_scriptOpening _ _)) ih
  | @unopened m path asking events stop _ aside _ =>
    refine .append (.silent (isSilent_asked path asking)) (.silent (fun event he => ?_))
    rcases List.mem_cons.1 he with rfl | he
    · rfl
    · exact Event.isSilent_of_isAside (aside event he)
  | rejected => exact pairs_asked_opening _ _ _
  | raised _ _ _ ih => exact (pairs_asked_opening _ _ _).append ih
  | load _ _ _ ends ih =>
    exact ((pairs_asked_opening _ _ _).append ih).append (.silent ends.isSilent)

/-! ## Runs -/

def libraryStory (settings : Settings) : Machine → List Turn → List LibraryEvent
  | _, [] => []
  | m, t :: rest =>
    let (outcome, after) := observe (perform settings t.depth t.operation) m
    m.libraryStory outcome.events ++ libraryStory settings after rest

theorem Machine.Agree.openedCount {m n : Machine} (h : m.Agree n) :
    m.openedCount = n.openedCount := by
  unfold Machine.openedCount
  rw [h.trace]

theorem map_told_runTurns (settings : Settings) (m : Machine) (turns : List Turn) :
    (libraryStory settings m turns).map LibraryEvent.told =
      (runTurns settings m turns).flatMap (fun o => libraryEvents o.events) := by
  induction turns generalizing m with
  | nil => rfl
  | cons t rest ih =>
    rw [runTurns_cons, List.flatMap_cons, libraryStory, List.map_append, ih,
      Machine.map_told_libraryStory]

/-- In each run libraries come in pairs, from one operation to the next. -/
theorem paired_libraryStory (settings : Settings) (m : Machine) (turns : List Turn) :
    Paired m.openedCount (libraryStory settings m turns)
      (finalState settings m turns).openedCount := by
  induction turns generalizing m with
  | nil => exact .nil
  | cons t rest ih =>
    obtain ⟨hafter, hc⟩ := observe_conduct settings t m
    have hpairs : Paired m.openedCount _ _ := hc.pairs
    rw [← hafter.openedCount] at hpairs
    exact hpairs.append (ih _)

structure LifeCycle (story : List LibraryEvent) : Prop where
  /-- The next thing that happens after an opening answers it. -/
  answered : ∀ (i : Nat) (x : LibraryEvent), story[i]? = some x → x.step = .opened →
    ∃ y, story[i + 1]? = some y ∧ x.Answers y
  /-- A library is installed or closed only where it was just opened. -/
  announced : ∀ (i : Nat) (y : LibraryEvent), story[i]? = some y → y.step ≠ .opened →
    ∃ j x, i = j + 1 ∧ story[j]? = some x ∧ x.step = .opened ∧ x.Answers y
  /-- A handle is never used again. -/
  fresh : (handlesOf .opened story).Nodup
  /-- No handle is installed twice, closed twice, or installed and closed. -/
  once : (handlesOf .closed story ++ handlesOf .installed story).Nodup

theorem Paired.lifeCycle {n k : Nat} {story : List LibraryEvent} (h : Paired n story k) :
    LifeCycle story :=
  ⟨fun _ _ => h.answered, fun _ _ => h.announced, h.nodup_opened, h.perm.nodup h.nodup_opened⟩

/-- In each run the opening of a library is answered by the next thing that the trace tells of
libraries, and whatever happens to a handle happens to it once. -/
theorem libraries_lifeCycle (settings : Settings) (m : Machine) (turns : List Turn) :
    let story := libraryStory settings m turns
    story.map LibraryEvent.told =
        (runTurns settings m turns).flatMap (fun o => libraryEvents o.events) ∧
      LifeCycle story :=
  ⟨map_told_runTurns settings m turns, (paired_libraryStory settings m turns).lifeCycle⟩

end ModuleLoader
