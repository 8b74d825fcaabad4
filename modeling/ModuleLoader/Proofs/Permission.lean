import ModuleLoader.Proofs.Records

/-!
# What a state permits to happen

A load begins only for a symbol without a record, a record is made only for such a symbol, a script
is handed over under its own record, and the search path is that of the configuration. Everything
that is said of the registry of a whole run follows from this, event by event.

* `Machine.Allows`, `Machine.AllowsAll` : an event may happen in a state, and events one after
  another;
* `AllowsAll.new_of_chosen`, `AllowsAll.find?_of_loadingScript` : what the registry was before a
  load and is after a script was handed over;
* `AllowsAll.mem_modules` : the records that there are after events;
* `AllowsAll.countP_records` : of equal symbols at most one gets a record;
* `AllowsAll.searchPath` : the search path stays that of the configuration;
* `Machine.Agree` : states that differ at most in the system and the functions.
-/

namespace ModuleLoader

namespace Event

/-- The event makes a record under a symbol equal to this one. -/
def records (s : Symbol) : Event → Bool
  | .registered r => r.symbol.same s
  | _ => false

/-- A require hands the file of a script to the loader, for a symbol equal to this one. -/
def handsOver (s : Symbol) : Event → Bool
  | .noted (.loadingScript _ name) => (⟨name⟩ : Symbol).same s
  | _ => false

@[simp] theorem handsOver_chosen (s t : Symbol) (c : Candidate) :
    (Event.chosen t c).handsOver s = false := rfl

@[simp] theorem handsOver_delivered (s t : Symbol) (library : Library) :
    (Event.delivered t library).handsOver s = false := rfl

@[simp] theorem handsOver_registered (s : Symbol) (r : LoadedModule) :
    (Event.registered r).handsOver s = false := rfl

end Event

namespace Machine

/-- The event may happen in this state. -/
def Allows (m : Machine) : Event → Prop
  | .settled directories => directories = m.configuration.searchPath
  | .chosen s _ => m.registry.find? s = none
  | .registered r => m.registry.find? r.symbol = none
  | .noted (.loadingScript path name) =>
    m.registry.find? ⟨name⟩ = some ⟨⟨name⟩, .scriptSource, path, none⟩
  | _ => True

/-- The events may happen one after another from this state on. -/
def AllowsAll : Machine → List Event → Prop
  | _, [] => True
  | m, event :: events => m.Allows event ∧ (m.record event).AllowsAll events

theorem allowsAll_append {m : Machine} {events others : List Event} :
    m.AllowsAll (events ++ others) ↔ m.AllowsAll events ∧ (m.replay events).AllowsAll others := by
  induction events generalizing m with
  | nil => simp [AllowsAll]
  | cons event events ih => simp [AllowsAll, ih, and_assoc]

namespace AllowsAll
variable {m : Machine} {events : List Event}

theorem allows (h : m.AllowsAll events) {event : Event} (he : event ∈ events) :
    ∃ before after, events = before ++ event :: after ∧ (m.replay before).Allows event := by
  obtain ⟨before, after, rfl⟩ := List.append_of_mem he
  exact ⟨before, after, rfl, (allowsAll_append.1 h).2.1⟩

theorem new_of_chosen (h : m.AllowsAll events) {s : Symbol} {c : Candidate}
    (hc : .chosen s c ∈ events) : m.registry.find? s = none := by
  obtain ⟨before, after, -, hnew⟩ := h.allows hc
  exact find?_of_replay_none hnew

theorem find?_of_loadingScript (h : m.AllowsAll events) {path name : String}
    (hl : .noted (.loadingScript path name) ∈ events) :
    (m.replay events).registry.find? ⟨name⟩ = some ⟨⟨name⟩, .scriptSource, path, none⟩ := by
  obtain ⟨before, after, rfl, hfound⟩ := h.allows hl
  rw [replay_append]
  exact find?_replay hfound _

theorem mem_modules (h : m.AllowsAll events) (r : LoadedModule) :
    r ∈ (m.replay events).registry.modules ↔ r ∈ m.registry.modules ∨ .registered r ∈ events := by
  induction events generalizing m with
  | nil => simp
  | cons event events ih =>
      rw [replay_cons, ih h.2, List.mem_cons]
      cases event with
      | registered s =>
          rw [modules_record_registered h.1, List.mem_append, List.mem_singleton,
            Event.registered.injEq, or_assoc]
      | _ => simp [record]

/-- Of equal symbols at most one gets a record, and none if one had a record before. -/
theorem countP_records (h : m.AllowsAll events) (s : Symbol) :
    events.countP (·.records s) ≤ if m.registry.find? s = none then 1 else 0 := by
  induction events generalizing m with
  | nil => exact Nat.zero_le _
  | cons event events ih =>
      obtain ⟨hallows, hrest⟩ := h
      have hih := ih hrest
      rw [List.countP_cons]
      by_cases hrecords : event.records s
      · cases event with
        | registered r =>
            have hfound := find?_record_registered hallows hrecords
            have hnew : m.registry.find? s = none := by
              rw [← Registry.find?_congr _ hrecords]
              exact hallows
            rw [hfound, if_neg (Option.some_ne_none r)] at hih
            rw [if_pos hrecords, if_pos hnew]
            omega
        | _ => cases hrecords
      · rw [if_neg hrecords]
        cases hfind : m.registry.find? s with
        | none =>
            rw [if_pos rfl]
            split at hih <;> omega
        | some r =>
            have hstill := find?_replay hfind [event]
            rw [replay_cons, replay_nil] at hstill
            rw [hstill] at hih
            simpa using hih

theorem searchPath (h : m.AllowsAll events)
    (hm : ∀ directories ∈ m.searchPath, directories = m.configuration.searchPath) :
    ∀ directories ∈ (m.replay events).searchPath, directories = m.configuration.searchPath := by
  induction events generalizing m with
  | nil => exact hm
  | cons event events ih =>
      obtain ⟨hallows, hrest⟩ := h
      rw [replay_cons, ← configuration_record m event]
      refine ih hrest ?_
      rw [configuration_record]
      cases event with
      | settled directories =>
          intro others hothers
          cases hothers
          exact hallows
      | _ => exact hm

end AllowsAll

/-- The states differ at most in the system and in the functions that a host defined. -/
structure Agree (m n : Machine) : Prop where
  configuration : m.configuration = n.configuration
  globals : m.globals = n.globals
  registry : m.registry = n.registry
  searchPath : m.searchPath = n.searchPath
  trace : m.trace = n.trace

namespace Agree
variable {m n o : Machine}

theorem refl (m : Machine) : m.Agree m := ⟨rfl, rfl, rfl, rfl, rfl⟩

theorem trans (h : m.Agree n) (h' : n.Agree o) : m.Agree o :=
  ⟨h.configuration.trans h'.configuration, h.globals.trans h'.globals, h.registry.trans h'.registry,
    h.searchPath.trans h'.searchPath, h.trace.trans h'.trace⟩

theorem record (h : m.Agree n) (event : Event) : (m.record event).Agree (n.record event) := by
  obtain ⟨hconfiguration, hglobals, hregistry, hsearchPath, htrace⟩ := h
  constructor
  · simpa using hconfiguration
  · cases event <;> simp [Machine.record, hglobals]
  · cases event <;> simp [Machine.record, hregistry]
  · cases event <;> simp [Machine.record, hsearchPath]
  · simpa using htrace

theorem replay (h : m.Agree n) (events : List Event) :
    (m.replay events).Agree (n.replay events) := by
  induction events generalizing m n with
  | nil => exact h
  | cons event events ih => exact ih (h.record event)

theorem append {events others : List Event} (h : n.Agree (m.replay events))
    (h' : o.Agree (n.replay others)) : o.Agree (m.replay (events ++ others)) := by
  rw [replay_append]
  exact h'.trans (h.replay others)

theorem allowsAll (h : m.Agree n) {events : List Event} (ha : m.AllowsAll events) :
    n.AllowsAll events := by
  induction events generalizing m n with
  | nil => trivial
  | cons event events ih =>
      refine ⟨?_, ih (h.record event) ha.2⟩
      have hallows := ha.1
      unfold Allows at *
      rwa [h.configuration, h.registry] at hallows

end Agree

end Machine

end ModuleLoader
