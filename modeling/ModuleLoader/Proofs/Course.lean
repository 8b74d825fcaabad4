import ModuleLoader.Proofs.Permission

/-!
# The course of events

What may happen while scripts run, from a state on and up to the moment at which it is over or
stops. A course is put together from incidents and from loads of modules; a load holds the course
of what it runs. Facts about loads are proved by induction on courses.

* `Event.loadOf?` : the symbol for which an event is a step of a load;
* `Incident` : events that belong to no load of a module;
* `scriptOpening` : how the load of a script begins;
* `Course` : the events from a state on, and why they stop, if they do;
* `Course.allowsAll` : each event of a course may happen where it does;
* `Course.found_of_chosen` : a course that is over has a record for each symbol that it loaded;
* `Course.chosen_of_loadOf?` : a step of a load comes from a load;
* `Course.countP_handsOver_le` : a script is not handed over without a record made for it.
-/

namespace ModuleLoader

/-- The symbol for which an event is a step of a load. -/
def Event.loadOf? : Event → Option Symbol
  | .chosen s _ | .delivered s _ => some s
  | .registered r => some r.symbol
  | .noted (.loadingScript _ name) => some ⟨name⟩
  | _ => none

/-- The event changes at most the globals and opens no library. -/
def Event.isPlain : Event → Bool
  | .printed _ | .consulted _ _ | .bound _ _ | .handed _ => true
  | .noted (.loadingScript _ _) => false
  | .noted _ => true
  | _ => false

theorem Event.loadOf?_of_isPlain {event : Event} (h : event.isPlain) : event.loadOf? = none := by
  cases event with
  | noted n => cases n <;> first | rfl | cases h
  | _ => first | rfl | cases h

/-- Events that belong to no load of a module. -/
inductive Incident (m : Machine) : List Event → Prop
  | plain {event : Event} (plain : event.isPlain) : Incident m [event]
  | settled : Incident m [.settled m.configuration.searchPath]
  /-- A library is opened under the next handle, and its entry point is called. -/
  | installed (path : String) :
      Incident m [.library .opened path (m.openedCount + 1),
        .library .installed path (m.openedCount + 1)]
  /-- A library without the entry point is closed at once. -/
  | closed (path : String) :
      Incident m [.library .opened path (m.openedCount + 1),
        .library .closed path (m.openedCount + 1)]

/-- How the load of a script begins: it has its record before it runs. -/
def scriptOpening (s : Symbol) (path : String) : List Event :=
  [.chosen s ⟨path, .scriptSource⟩, .registered ⟨s, .scriptSource, path, none⟩,
    .noted (.loadingScript path s.name)]

def Stop.isRefusedRecord : Stop → Bool
  | .fault (.registeredTwice _) => true
  | _ => false

/-- What happens from a state on, and why it stops if it is not simply over. -/
inductive Course : Machine → List Event → Option Stop → Prop
  | done {m : Machine} : Course m [] none
  /-- Something stops for a reason of its own. -/
  | halt {m : Machine} {stop : Stop} (other : stop.isRefusedRecord = false) :
      Course m [] (some stop)
  | incident {m : Machine} {events : List Event} (happens : Incident m events) :
      Course m events none
  | append {m : Machine} {events others : List Event} {stop : Option Stop}
      (first : Course m events none) (rest : Course (m.replay events) others stop) :
      Course m (events ++ others) stop
  | script {m : Machine} {s : Symbol} {path : String} {events : List Event} {stop : Option Stop}
      (new : m.registry.find? s = none)
      (run : Course (m.replay (scriptOpening s path)) events stop) :
      Course m (scriptOpening s path ++ events) stop
  /-- A library gets its record once it is installed. -/
  | native {m : Machine} {s : Symbol} {path : String} {events : List Event} (library : Library)
      (new : m.registry.find? s = none)
      (run : Course (m.record (.chosen s ⟨path, .nativeLibrary⟩)) events none)
      (still : ((m.record (.chosen s ⟨path, .nativeLibrary⟩)).replay events).registry.find? s =
        none) :
      Course m (.chosen s ⟨path, .nativeLibrary⟩ :: (events ++ [.delivered s library,
        .registered ⟨s, .nativeLibrary, path, some library⟩])) none
  /-- A library is refused its record where the symbol got one in the meantime. -/
  | refused {m : Machine} {s : Symbol} {path : String} {events : List Event} (library : Library)
      (new : m.registry.find? s = none)
      (run : Course (m.record (.chosen s ⟨path, .nativeLibrary⟩)) events none)
      (taken : ((m.record (.chosen s ⟨path, .nativeLibrary⟩)).replay events).registry.find? s ≠
        none) :
      Course m (.chosen s ⟨path, .nativeLibrary⟩ :: (events ++ [.delivered s library]))
        (some (.fault (.registeredTwice s)))
  /-- The loading of a library stops before the library is there. -/
  | abandoned {m : Machine} {s : Symbol} {path : String} {events : List Event} {stop : Stop}
      (new : m.registry.find? s = none)
      (run : Course (m.record (.chosen s ⟨path, .nativeLibrary⟩)) events (some stop)) :
      Course m (.chosen s ⟨path, .nativeLibrary⟩ :: events) (some stop)

theorem chosen_mem_scriptOpening {s t : Symbol} {path : String} {c : Candidate}
    (h : .chosen t c ∈ scriptOpening s path) : t = s := by
  simp only [scriptOpening, List.mem_cons, Event.chosen.injEq, reduceCtorEq, List.not_mem_nil,
    or_false] at h
  exact h.1

theorem loadOf?_of_mem_scriptOpening {s t : Symbol} {path : String} {event : Event}
    (h : event ∈ scriptOpening s path) (ht : event.loadOf? = some t) : t = s := by
  simp only [scriptOpening, List.mem_cons, List.not_mem_nil, or_false] at h
  rcases h with rfl | rfl | rfl
  · exact (Option.some.inj ht).symm
  · exact (Option.some.inj ht).symm
  · exact (Option.some.inj ht).symm

/-- A step of the load of a library comes from that load or from one within. -/
theorem chosen_of_mem_library {s t : Symbol} {c : Candidate} {events ending : List Event}
    {event : Event} (he : event ∈ .chosen s c :: (events ++ ending)) (ht : event.loadOf? = some t)
    (hending : ∀ e ∈ ending, e.loadOf? = some s)
    (hwithin : event ∈ events → ∃ d, .chosen t d ∈ events) :
    ∃ d, .chosen t d ∈ .chosen s c :: (events ++ ending) := by
  rcases List.mem_cons.1 he with rfl | he
  · cases ht
    exact ⟨_, List.mem_cons_self⟩
  · rcases List.mem_append.1 he with he | he
    · obtain ⟨d, hd⟩ := hwithin he
      exact ⟨d, List.mem_cons_of_mem _ (List.mem_append_left _ hd)⟩
    · obtain rfl := Option.some.inj ((hending event he).symm.trans ht)
      exact ⟨_, List.mem_cons_self⟩

theorem countP_handsOver_scriptOpening (t : Symbol) (path : String) (s : Symbol) :
    (scriptOpening t path).countP (·.handsOver s) ≤
      (scriptOpening t path).countP (·.records s) := by
  by_cases ht : t.same s
  · have hover : (scriptOpening t path).countP (·.handsOver s) = 1 := by
      simp [scriptOpening, Event.handsOver, ht]
    have hrecords : (scriptOpening t path).countP (·.records s) = 1 := by
      simp [scriptOpening, Event.records, ht]
    exact Nat.le_of_eq (hover.trans hrecords.symm)
  · have hover : (scriptOpening t path).countP (·.handsOver s) = 0 := by
      simp [scriptOpening, Event.handsOver, ht]
    rw [hover]
    exact Nat.zero_le _

theorem exists_of_handsOver {s : Symbol} {event : Event} (h : event.handsOver s) :
    ∃ path name, event = .noted (.loadingScript path name) := by
  cases event with
  | noted n => cases n <;> first | exact ⟨_, _, rfl⟩ | cases h
  | _ => cases h

namespace Incident
variable {m : Machine} {events : List Event}

theorem loadOf?_eq_none (h : Incident m events) {event : Event} (he : event ∈ events) :
    event.loadOf? = none := by
  cases h with
  | plain hp =>
      rw [List.mem_singleton] at he
      subst he
      exact Event.loadOf?_of_isPlain hp
  | settled =>
      rw [List.mem_singleton] at he
      subst he
      rfl
  | installed path | closed path =>
      simp only [List.mem_cons, List.not_mem_nil, or_false] at he
      rcases he with rfl | rfl <;> rfl

theorem not_mem_of_loadOf? (h : Incident m events) {event : Event} {s : Symbol}
    (hs : event.loadOf? = some s) : event ∉ events := by
  intro he
  rw [h.loadOf?_eq_none he] at hs
  cases hs

theorem allowsAll (h : Incident m events) : m.AllowsAll events := by
  cases h with
  | @plain event hp =>
      refine ⟨?_, trivial⟩
      cases event with
      | noted n => cases n <;> trivial
      | _ => trivial
  | settled => exact ⟨rfl, trivial⟩
  | installed | closed => exact ⟨trivial, trivial, trivial⟩

end Incident

namespace Course
variable {m : Machine} {events : List Event} {stop : Option Stop}

theorem cons {event : Event} (h : event.isPlain) (rest : Course (m.record event) events stop) :
    Course m (event :: events) stop :=
  .append (.incident (.plain h)) rest

theorem find?_script {s : Symbol} (path : String) (new : m.registry.find? s = none) {t : Symbol}
    (hs : s.same t) :
    (m.replay (scriptOpening s path)).registry.find? t = some ⟨s, .scriptSource, path, none⟩ := by
  have h := Machine.find?_record_registered (m := m.record (.chosen s ⟨path, .scriptSource⟩))
    (r := ⟨s, .scriptSource, path, none⟩) new hs
  exact Machine.find?_replay h [.noted (.loadingScript path s.name)]

theorem allowsAll_scriptOpening {s : Symbol} (path : String) (new : m.registry.find? s = none) :
    m.AllowsAll (scriptOpening s path) :=
  ⟨new, new, find?_script path new (Symbol.same_refl s), trivial⟩

theorem find?_native {s : Symbol} {path : String} (library : Library)
    (still : ((m.record (.chosen s ⟨path, .nativeLibrary⟩)).replay events).registry.find? s = none)
    {t : Symbol} (hs : s.same t) :
    (m.replay (.chosen s ⟨path, .nativeLibrary⟩ :: (events ++ [.delivered s library,
      .registered ⟨s, .nativeLibrary, path, some library⟩]))).registry.find? t =
      some ⟨s, .nativeLibrary, path, some library⟩ := by
  rw [Machine.replay_cons, Machine.replay_append]
  exact Machine.find?_record_registered
    (m := ((m.record (.chosen s ⟨path, .nativeLibrary⟩)).replay events).record
      (.delivered s library)) (r := ⟨s, .nativeLibrary, path, some library⟩) still hs

theorem allowsAll (h : Course m events stop) : m.AllowsAll events := by
  induction h with
  | done | halt => trivial
  | incident hi => exact hi.allowsAll
  | append first rest ihf ihr => exact Machine.allowsAll_append.2 ⟨ihf, ihr⟩
  | script new run ih =>
      exact Machine.allowsAll_append.2 ⟨allowsAll_scriptOpening _ new, ih⟩
  | native library new run still ih =>
      exact ⟨new, Machine.allowsAll_append.2 ⟨ih, trivial, still, trivial⟩⟩
  | refused library new run taken ih =>
      exact ⟨new, Machine.allowsAll_append.2 ⟨ih, trivial, trivial⟩⟩
  | abandoned new run ih => exact ⟨new, ih⟩

theorem new_of_chosen (h : Course m events stop) {s : Symbol} {c : Candidate}
    (hc : .chosen s c ∈ events) : m.registry.find? s = none :=
  h.allowsAll.new_of_chosen hc

/-- Once a course is over, each symbol that it loaded has a record. -/
theorem found_of_chosen (h : Course m events none) {s : Symbol} {c : Candidate}
    (hc : .chosen s c ∈ events) : ∃ r, (m.replay events).registry.find? s = some r := by
  generalize hstop : (none : Option Stop) = stop at h
  induction h with
  | done | halt => cases hc
  | incident hi => exact absurd hc (hi.not_mem_of_loadOf? rfl)
  | append first rest ihf ihr =>
      rw [Machine.replay_append]
      rcases List.mem_append.1 hc with hc | hc
      · obtain ⟨r, hr⟩ := ihf hc rfl
        exact ⟨r, Machine.find?_replay hr _⟩
      · exact ihr hc hstop
  | script new run ih =>
      rw [Machine.replay_append]
      rcases List.mem_append.1 hc with hc | hc
      · cases chosen_mem_scriptOpening hc
        exact ⟨_, Machine.find?_replay (find?_script _ new (Symbol.same_refl _)) _⟩
      · exact ih hc hstop
  | native library new run still ih =>
      simp only [List.mem_cons, List.mem_append, Event.chosen.injEq, reduceCtorEq, List.not_mem_nil,
        or_false] at hc
      rcases hc with ⟨rfl, -⟩ | hc
      · exact ⟨_, find?_native _ still (Symbol.same_refl _)⟩
      · obtain ⟨r, hr⟩ := ih hc rfl
        rw [Machine.replay_cons, Machine.replay_append]
        exact ⟨r, Machine.find?_replay hr _⟩
  | refused | abandoned => cases hstop

/-- A step of a load comes from a load. -/
theorem chosen_of_loadOf? (h : Course m events stop) {event : Event} (he : event ∈ events)
    {s : Symbol} (hs : event.loadOf? = some s) : ∃ c, .chosen s c ∈ events := by
  induction h with
  | done | halt => cases he
  | incident hi => exact absurd he (hi.not_mem_of_loadOf? hs)
  | append first rest ihf ihr =>
      rcases List.mem_append.1 he with he | he
      · obtain ⟨c, hc⟩ := ihf he
        exact ⟨c, List.mem_append_left _ hc⟩
      · obtain ⟨c, hc⟩ := ihr he
        exact ⟨c, List.mem_append_right _ hc⟩
  | script new run ih =>
      rcases List.mem_append.1 he with he | he
      · cases loadOf?_of_mem_scriptOpening he hs
        exact ⟨_, List.mem_append_left _ List.mem_cons_self⟩
      · obtain ⟨c, hc⟩ := ih he
        exact ⟨c, List.mem_append_right _ hc⟩
  | native library new run still ih | refused library new run taken ih =>
      exact chosen_of_mem_library he hs (by simp [Event.loadOf?]) ih
  | abandoned new run ih =>
      rcases List.mem_cons.1 he with rfl | he
      · cases hs
        exact ⟨_, List.mem_cons_self⟩
      · obtain ⟨c, hc⟩ := ih he
        exact ⟨c, List.mem_cons_of_mem _ hc⟩

/-- A script is not handed over without a record made for it. -/
theorem countP_handsOver_le (h : Course m events stop) (s : Symbol) :
    events.countP (·.handsOver s) ≤ events.countP (·.records s) := by
  induction h with
  | done | halt => exact Nat.le_refl _
  | incident hi =>
      rw [List.countP_eq_zero.2 (fun event he hs => ?_)]
      · exact Nat.zero_le _
      · obtain ⟨path, name, rfl⟩ := exists_of_handsOver hs
        exact hi.not_mem_of_loadOf? rfl he
  | append first rest ihf ihr =>
      rw [List.countP_append, List.countP_append]
      exact Nat.add_le_add ihf ihr
  | @script m t path events stop new run ih =>
      rw [List.countP_append, List.countP_append]
      exact Nat.add_le_add (countP_handsOver_scriptOpening t path s) ih
  | native library new run still ih | refused library new run taken ih =>
      simp only [List.countP_cons, List.countP_append, List.countP_nil, Event.handsOver_chosen,
        Event.handsOver_delivered, Event.handsOver_registered, Bool.false_eq_true, if_false]
      omega
  | abandoned new run ih =>
      simp only [List.countP_cons, Event.handsOver_chosen, Bool.false_eq_true, if_false]
      omega

end Course

end ModuleLoader
