import Mathlib.Data.List.Nodup
import ModuleLoader.Proofs.LifeCycle

/-!
# The books of opened libraries

Each library that is opened is closed again, or goes to the record of a module or to who asked for
it; or it is still being loaded. Where its load stops behind the entry point, it stays open and
nobody has it.

* `Event.gives?`, `givenIn`, `begunIn` : libraries that go to somebody, and loads that begin;
* `Books`, `Kept` : which of the libraries that events open are left, and that no more are left than
  loads are in progress, now and at each moment before;
* `Conduct.kept` : the books of a course are kept, and nothing is left if it is over;
* `Outcome.Settles`, `Outcome.Drops` : an operation leaves no library behind, and it does
  (`settles_iff`, `balanced_iff`).
-/

namespace ModuleLoader

open ModuleLoader.Action

namespace Event

/-- The library that goes to the record of a module or to who asked for it. -/
def gives? : Event → Option Nat
  | .handed given => some given.handle
  | .registered r => r.library.map Library.handle
  | _ => none

def begins : Event → Bool
  | .consulted .load _ => true
  | _ => false

/-- The event makes no entry in the books. -/
def isNeutral : Event → Bool
  | .consulted .load _ | .library .opened _ _ | .library .closed _ _ | .handed _ => false
  | .registered r => r.library.isNone
  | _ => true

theorem isNeutral_of_isAside {event : Event} (h : event.isAside) : event.isNeutral := by
  cases event with
  | consulted purpose path => cases purpose <;> first | rfl | cases h
  | printed | noted | bound => rfl
  | _ => cases h

theorem entries_of_isNeutral {event : Event} (h : event.isNeutral) :
    event.handle? .opened = none ∧ event.handle? .closed = none ∧ event.gives? = none ∧
      event.begins = false := by
  cases event with
  | library step path handle =>
    cases step with
    | installed => exact ⟨rfl, rfl, rfl, rfl⟩
    | opened | closed => cases h
  | consulted purpose path =>
    cases purpose with
    | load => cases h
    | probe | read => exact ⟨rfl, rfl, rfl, rfl⟩
  | registered r =>
    have hnone : r.library = none := Option.isNone_iff_eq_none.1 h
    refine ⟨rfl, rfl, ?_, rfl⟩
    rw [gives?, hnone, Option.map_none]
  | handed => cases h
  | _ => exact ⟨rfl, rfl, rfl, rfl⟩

end Event

def givenIn (events : List Event) : List Nat := events.filterMap Event.gives?

def begunIn (events : List Event) : Nat := events.countP Event.begins

@[simp] theorem givenIn_append (events others : List Event) :
    givenIn (events ++ others) = givenIn events ++ givenIn others :=
  List.filterMap_append

@[simp] theorem begunIn_append (events others : List Event) :
    begunIn (events ++ others) = begunIn events + begunIn others :=
  List.countP_append

/-! ## Books -/

/-- The libraries opened are those closed, those that went to somebody and those left; and a load in
progress leaves one at most. -/
structure Books (events : List Event) (left : List Nat) : Prop where
  balance : (handlesIn .opened events).Perm
    (handlesIn .closed events ++ (givenIn events ++ left))
  covered : left.length + (givenIn events).length ≤ begunIn events

/-- There are books at each moment of the events. -/
def Kept (events : List Event) : Prop := ∀ p, p <+: events → ∃ left, Books p left

theorem books_neutral {events : List Event} (h : ∀ event ∈ events, event.isNeutral) :
    Books events [] := by
  have hopened : handlesIn .opened events = [] :=
    List.filterMap_eq_nil_iff.2 (fun e he => (Event.entries_of_isNeutral (h e he)).1)
  have hclosed : handlesIn .closed events = [] :=
    List.filterMap_eq_nil_iff.2 (fun e he => (Event.entries_of_isNeutral (h e he)).2.1)
  have hgiven : givenIn events = [] :=
    List.filterMap_eq_nil_iff.2 (fun e he => (Event.entries_of_isNeutral (h e he)).2.2.1)
  refine ⟨?_, ?_⟩
  · rw [hopened, hclosed, hgiven]
    exact .refl _
  · rw [hgiven]
    exact Nat.zero_le _

namespace Books
variable {events others : List Event} {left more : List Nat}

theorem append (h : Books events left) (h' : Books others more) :
    Books (events ++ others) (left ++ more) := by
  refine ⟨List.perm_iff_count.2 (fun a => ?_), ?_⟩
  · have hfirst := h.balance.count_eq a
    have hsecond := h'.balance.count_eq a
    simp only [handlesIn_append, givenIn_append, List.count_append] at *
    omega
  · have hfirst := h.covered
    have hsecond := h'.covered
    simp only [givenIn_append, begunIn_append, List.length_append]
    omega

theorem neutral (h : Books events left) (hn : ∀ event ∈ others, event.isNeutral) :
    Books (events ++ others) left := by
  have hwhole := h.append (books_neutral hn)
  rwa [List.append_nil] at hwhole

theorem nothing (h : Books events left) (hnone : ∀ handle, handle ∉ left) : Books events [] := by
  have hleft : left = [] := List.eq_nil_iff_forall_not_mem.2 hnone
  rwa [hleft] at h

theorem of_left (h : Books events left) (hnodup : (handlesIn .opened events).Nodup) {handle : Nat}
    (hleft : handle ∈ left) :
    handle ∈ handlesIn .opened events ∧
      handle ∉ handlesIn .closed events ++ givenIn events := by
  have hsplit := h.balance
  rw [← List.append_assoc] at hsplit
  have hdisjoint := List.disjoint_of_nodup_append (hsplit.nodup hnodup)
  refine ⟨hsplit.mem_iff.2 (List.mem_append_right _ hleft), fun hgone => ?_⟩
  exact hdisjoint hgone hleft

theorem give {handle : Nat} {event : Event} (h : Books events [handle])
    (silent : event.isSilent) (gives : event.gives? = some handle) :
    Books (events ++ [event]) [] := by
  have hgiven : givenIn [event] = [handle] := by
    simp [givenIn, gives]
  have hnone (step : LibraryStep) : handlesIn step [event] = [] := by
    simp [handlesIn, Event.handle?_of_isSilent silent]
  refine ⟨?_, ?_⟩
  · rw [handlesIn_append, handlesIn_append, givenIn_append, hnone, hnone, hgiven, List.append_nil,
      List.append_nil, List.append_nil]
    exact h.balance
  · have hcovered := h.covered
    simp only [givenIn_append, begunIn_append, hgiven, List.length_append, List.length_cons,
      List.length_nil] at *
    omega

end Books

theorem books_nil : Books [] [] := ⟨.refl _, Nat.le_refl 0⟩

theorem kept_nil : Kept [] := by
  intro p hp
  rw [List.prefix_nil.1 hp]
  exact ⟨[], books_nil⟩

theorem kept_neutral {events : List Event} (h : ∀ event ∈ events, event.isNeutral) :
    Kept events :=
  fun _ hp => ⟨[], books_neutral (fun e he => h e (hp.subset he))⟩

namespace Kept
variable {events others : List Event} {left : List Nat}

theorem books (h : Kept events) : ∃ left, Books events left := h events (List.prefix_refl _)

theorem append (h : Kept events) (h' : Kept others) : Kept (events ++ others) := by
  intro p hp
  obtain ⟨left, hbooks⟩ := h.books
  rcases List.prefix_or_prefix_of_prefix hp (List.prefix_append events others) with hle | ⟨q, rfl⟩
  · exact h p hle
  · obtain ⟨more, hmore⟩ := h' q ((List.prefix_append_right_inj events).1 hp)
    exact ⟨left ++ more, hbooks.append hmore⟩

theorem concat {event : Event} (h : Kept events) (hb : Books (events ++ [event]) left) :
    Kept (events ++ [event]) := by
  intro p hp
  rcases List.prefix_concat_iff.1 hp with rfl | hp
  · exact ⟨left, hb⟩
  · exact h p hp

end Kept

/-! ## The books of a course -/

section Opening
variable (m : Machine) (path : String)

/-- A library is left behind its opening if its entry point is called. -/
theorem books_opening : Books (m.opening path)
    (if m.exposes path then [(m.next path).handle] else []) := by
  unfold Machine.opening Machine.answer
  split
  · exact ⟨.refl _, Nat.le_refl 1⟩
  · exact ⟨.refl _, Nat.zero_le 1⟩

theorem kept_opening : Kept (m.opening path) := by
  have hconsulted : Books [.consulted .load path] [] := ⟨.refl _, Nat.zero_le 1⟩
  have hopened : Books [.consulted .load path, .library .opened path (m.next path).handle]
      [(m.next path).handle] := ⟨.refl _, Nat.le_refl 1⟩
  have hfirst : Kept [.consulted .load path] := kept_nil.concat hconsulted
  exact (hfirst.concat hopened).concat (books_opening m path)

end Opening

theorem isNeutral_asked (path : String) (asking : Option Symbol) :
    ∀ event ∈ asked path asking, event.isNeutral := by
  cases asking <;> simp [asked, Event.isNeutral]

theorem isNeutral_scriptOpening (s : Symbol) (path : String) :
    ∀ event ∈ scriptOpening s path, event.isNeutral := by
  simp [scriptOpening, Event.isNeutral]

theorem kept_asked_opening (m : Machine) (path : String) (asking : Option Symbol) :
    Kept (asked path asking ++ m.opening path) :=
  (kept_neutral (isNeutral_asked path asking)).append (kept_opening m path)

/-- The library is left when its entry point came back, and goes to somebody unless its module is
refused a record. -/
theorem Ending.kept {library : Library} {n : Machine} {asking : Option Symbol}
    {events ending : List Event} {stop : Option Stop} (h : Ending library n asking ending stop)
    (hk : Kept events) (hb : Books events [library.handle]) :
    Kept (events ++ ending) ∧ (stop = none → Books (events ++ ending) []) := by
  have hneutral (s : Symbol) : ∀ event ∈ [Event.delivered s library], event.isNeutral := by
    simp [Event.isNeutral]
  cases h with
  | handed =>
    have hgive : Books (events ++ [.handed library]) [] := hb.give rfl rfl
    exact ⟨hk.concat hgive, fun _ => hgive⟩
  | @recorded s still =>
    have hdelivered := hb.neutral (hneutral s)
    have hgive : Books (events ++ [.delivered s library] ++
        [.registered ⟨s, .nativeLibrary, library.path, some library⟩]) [] :=
      hdelivered.give rfl rfl
    have hkept := (hk.concat hdelivered).concat hgive
    rw [List.append_assoc] at hgive hkept
    exact ⟨hkept, fun _ => hgive⟩
  | @refused s taken =>
    have hdelivered := hb.neutral (hneutral s)
    exact ⟨hk.concat hdelivered, fun hstop => by cases hstop⟩

/-- The books of a course are kept, and nothing is left if it is over. By induction on the course:
what an entry point runs is over, and leaves nothing, before its library goes to somebody. -/
theorem Conduct.kept {m : Machine} {events : List Event} {stop : Option Stop}
    (h : Conduct m events stop) : Kept events ∧ (stop = none → Books events []) := by
  have hsome {stop : Stop} {events : List Event} : some stop = none → Books events [] :=
    fun h => by cases h
  have hneutral {events : List Event} {stop : Option Stop}
      (h : ∀ event ∈ events, event.isNeutral) : Kept events ∧ (stop = none → Books events []) :=
    ⟨kept_neutral h, fun _ => books_neutral h⟩
  induction h with
  | done => exact ⟨kept_nil, fun _ => books_nil⟩
  | halt => exact ⟨kept_nil, hsome⟩
  | aside aside => exact hneutral (by simpa using Event.isNeutral_of_isAside aside)
  | settled => exact hneutral (by simp [Event.isNeutral])
  | append _ _ ihf ihr =>
    exact ⟨ihf.1.append ihr.1, fun hstop => (ihf.2 rfl).append (ihr.2 hstop)⟩
  | @script m s path events stop _ _ ih =>
    have hopening := isNeutral_scriptOpening s path
    exact ⟨(kept_neutral hopening).append ih.1,
      fun hstop => (books_neutral hopening).append (ih.2 hstop)⟩
  | @unopened m path asking events stop _ aside _ =>
    have hconsulted : Books [.consulted .load path] [] := ⟨.refl _, Nat.zero_le 1⟩
    have hbegun : Kept [.consulted .load path] := kept_nil.concat hconsulted
    have hrest : Kept events :=
      kept_neutral (fun e he => Event.isNeutral_of_isAside (aside e he))
    exact ⟨(kept_neutral (isNeutral_asked path asking)).append (hbegun.append hrest), hsome⟩
  | rejected => exact ⟨kept_asked_opening _ _ _, hsome⟩
  | raised _ _ _ ih => exact ⟨(kept_asked_opening _ _ _).append ih.1, hsome⟩
  | @load m path asking events ending stop _ exposes _ ends ih =>
    have hopening := books_opening m path
    rw [if_pos exposes] at hopening
    have hbooks := ((books_neutral (isNeutral_asked path asking)).append hopening).append (ih.2 rfl)
    exact ends.kept ((kept_asked_opening m path asking).append ih.1) hbooks

/-! ## What an operation leaves -/

namespace Conduct
variable {m : Machine} {events : List Event} {stop : Option Stop}

theorem nodup_opened (h : Conduct m events stop) : (handlesIn .opened events).Nodup := by
  have hpaired : Paired _ _ _ := h.pairs
  rw [← handlesOf_libraryStory .opened m]
  exact hpaired.nodup_opened

theorem perm_opened (h : Conduct m events stop) :
    (handlesIn .opened events).Perm
      (handlesIn .closed events ++ handlesIn .installed events) := by
  have hpaired : Paired _ _ _ := h.pairs
  rw [← handlesOf_libraryStory .opened m, ← handlesOf_libraryStory .closed m,
    ← handlesOf_libraryStory .installed m]
  exact hpaired.perm

/-- The libraries whose entry point was called are those that went to somebody and those left. -/
theorem perm_installed (h : Conduct m events stop) {left : List Nat} (hb : Books events left) :
    (handlesIn .installed events).Perm (givenIn events ++ left) :=
  (List.perm_append_left_iff _).1 (h.perm_opened.symm.trans hb.balance)

end Conduct

namespace Outcome

/-- Each library that the operation opened was closed or went to somebody. -/
def Settles (o : Outcome Answer) : Prop :=
  handlesIn .opened o.events ⊆ handlesIn .closed o.events ++ givenIn o.events

/-- The operation fails after it called the entry point of a library that then went to nobody. -/
def Drops (o : Outcome Answer) : Prop :=
  (stop? o.result).isSome ∧ ∃ h ∈ handlesIn .installed o.events, h ∉ givenIn o.events

variable {m : Machine} {o : Outcome Answer}

/-- Nothing is left exactly if the operation drops no library. -/
theorem balanced_iff (h : Conduct m o.events (stop? o.result)) :
    Books o.events [] ↔ ¬ o.Drops := by
  constructor
  · rintro hb ⟨-, handle, hinstalled, hgiven⟩
    have hmem := (h.perm_installed hb).mem_iff.1 hinstalled
    rw [List.append_nil] at hmem
    exact hgiven hmem
  · intro hkeeps
    cases hstop : stop? o.result with
    | none => exact h.kept.2 hstop
    | some stop =>
      obtain ⟨left, hb⟩ := h.kept.1.books
      refine hb.nothing (fun handle hleft => hkeeps ⟨by rw [hstop]; rfl, handle, ?_, ?_⟩)
      · exact (h.perm_installed hb).mem_iff.2 (List.mem_append_right _ hleft)
      · have hgone := (hb.of_left h.nodup_opened hleft).2
        exact fun hgiven => hgone (List.mem_append_right _ hgiven)

theorem settles_iff (h : Conduct m o.events (stop? o.result)) : o.Settles ↔ Books o.events [] := by
  constructor
  · intro hsettles
    obtain ⟨left, hb⟩ := h.kept.1.books
    refine hb.nothing (fun handle hleft => ?_)
    obtain ⟨hopened, hgone⟩ := hb.of_left h.nodup_opened hleft
    exact hgone (hsettles hopened)
  · intro hb handle hopened
    have hmem := hb.balance.mem_iff.1 hopened
    rwa [List.append_nil] at hmem

end Outcome

end ModuleLoader
