import ModuleLoader.Proofs.Course

/-!
# The search for the file of a module

* `Value.symbol?` : the symbol that a module argument names (`require_eq`);
* `Machine.settling` : what the first use of the search path tells;
* `Machine.files` : the files that may hold a module, as a state sees them;
* `Event.isQuiet`, `Machine.replay_quiet` : events that leave records, globals and libraries alone;
* `tried`, `probes` : the candidates up to the first that exists, and what looking for them tells;
* `on_candidates`, `on_firstExisting`, `on_register` : the parts of a require;
* `on_loadCandidate_script`, `on_loadCandidate_library` : a load of either kind;
* `on_requireSymbol_known`, `on_requireSymbol_missing`, `on_requireSymbol_found` : a require of a
  symbol with a record, of one without a file, and of one that has to be loaded.
-/

namespace ModuleLoader

open ModuleLoader.Action

def Value.symbol? : Value → Option Symbol
  | .symbol s => some s
  | .string text => some ⟨text⟩
  | _ => none

/-- The event tells of a note, of a look at the file system or of the search path. -/
def Event.isQuiet : Event → Bool
  | .noted _ | .consulted _ _ | .settled _ => true
  | _ => false

namespace Machine

/-- What the first use of the search path tells. -/
def settling (m : Machine) : List Event :=
  match m.searchPath with
  | some _ => []
  | none => [.noted (.searchPath m.configuration.searchPath), .settled m.configuration.searchPath]

def files (m : Machine) (name : String) : List Candidate :=
  candidatesIn (m.searchPath.getD m.configuration.searchPath) m.configuration.extensions name

/-- Quiet events change at most the search path. -/
theorem replay_quiet {m : Machine} {events : List Event} (h : ∀ event ∈ events, event.isQuiet) :
    (m.replay events).registry = m.registry ∧ (m.replay events).globals = m.globals ∧
      (m.replay events).openedCount = m.openedCount := by
  induction events generalizing m with
  | nil => exact ⟨rfl, rfl, rfl⟩
  | cons event events ih =>
      obtain ⟨hregistry, hglobals, hopened⟩ :=
        ih (m := m.record event) (fun e he => h e (List.mem_cons_of_mem _ he))
      have hquiet := h event List.mem_cons_self
      rw [replay_cons, hregistry, hglobals, hopened]
      cases event with
      | noted | consulted | settled => exact ⟨rfl, rfl, by simp [openedCount]⟩
      | _ => cases hquiet

end Machine

/-- The candidates up to the first that exists, all of them if none does. -/
def tried (system : System) : List Candidate → List Candidate
  | [] => []
  | c :: rest => if system.isFile c.path then [c] else c :: tried system rest

/-- What looking for candidates tells. -/
def probes (candidates : List Candidate) : List Event :=
  candidates.flatMap (fun c => [.noted (.probing c.path), .consulted .probe c.path])

theorem tried_of_none {system : System} {candidates : List Candidate}
    (h : ∀ c ∈ candidates, ¬ system.isFile c.path) : tried system candidates = candidates := by
  induction candidates with
  | nil => rfl
  | cons c rest ih =>
      rw [tried, if_neg (h c List.mem_cons_self),
        ih (fun d hd => h d (List.mem_cons_of_mem _ hd))]

theorem tried_of_first {system : System} {before after : List Candidate} {c : Candidate}
    (h : ∀ d ∈ before, ¬ system.isFile d.path) (hc : system.isFile c.path) :
    tried system (before ++ c :: after) = before ++ [c] := by
  induction before with
  | nil => rw [List.nil_append, tried, if_pos hc, List.nil_append]
  | cons d rest ih =>
      rw [List.cons_append, tried, if_neg (h d List.mem_cons_self),
        ih (fun e he => h e (List.mem_cons_of_mem _ he)), List.cons_append]

theorem find?_of_first {system : System} {before after : List Candidate} {c : Candidate}
    (h : ∀ d ∈ before, ¬ system.isFile d.path) (hc : system.isFile c.path) :
    (before ++ c :: after).find? (fun d => system.isFile d.path) = some c := by
  have hbefore : before.find? (fun d => system.isFile d.path) = none :=
    List.find?_eq_none.2 (fun d hd => by simpa using h d hd)
  rw [List.find?_append, hbefore]
  simp [hc]

theorem quiet_probes {candidates : List Candidate} {event : Event}
    (h : event ∈ probes candidates) : event.isQuiet := by
  obtain ⟨c, -, h⟩ := List.mem_flatMap.1 h
  simp only [List.mem_cons, List.not_mem_nil, or_false] at h
  rcases h with rfl | rfl <;> rfl

theorem quiet_settling {m : Machine} {event : Event} (h : event ∈ m.settling) : event.isQuiet := by
  unfold Machine.settling at h
  split at h
  · cases h
  · simp only [List.mem_cons, List.not_mem_nil, or_false] at h
    rcases h with rfl | rfl <;> rfl

theorem quiet_search {m : Machine} (candidates : List Candidate) {event : Event}
    (h : event ∈ m.settling ++ probes candidates) : event.isQuiet := by
  rcases List.mem_append.1 h with h | h
  · exact quiet_settling h
  · exact quiet_probes h

theorem registry_search (m : Machine) (candidates : List Candidate) :
    (m.replay (m.settling ++ probes candidates)).registry = m.registry :=
  (Machine.replay_quiet (fun _ h => quiet_search candidates h)).1

theorem on_useSearchPath (m : Machine) :
    useSearchPath.on m =
      (.ok (m.searchPath.getD m.configuration.searchPath), m.replay m.settling) := by
  unfold useSearchPath Machine.settling
  rw [on_get_bind]
  cases m.searchPath with
  | some directories => rfl
  | none => rfl

theorem on_candidates (name : String) (m : Machine) :
    (candidates name).on m = (.ok (m.files name), m.replay m.settling) := by
  unfold candidates Machine.files
  rw [on_bind_ok (on_useSearchPath m), on_get_bind, on_pure, Machine.configuration_replay]

theorem on_fileExists (path : String) (m : Machine) :
    (fileExists path).on m = (.ok (m.system.isFile path), m.record (.consulted .probe path)) :=
  rfl

theorem on_firstExisting (candidates : List Candidate) (m : Machine) :
    (firstExisting candidates).on m =
      (.ok (candidates.find? (fun c => m.system.isFile c.path)),
        m.replay (probes (tried m.system candidates))) := by
  induction candidates generalizing m with
  | nil => rfl
  | cons c rest ih =>
      rw [firstExisting, on_note_bind, on_bind_ok (on_fileExists _ _)]
      cases hc : m.system.isFile c.path with
      | true =>
          simp only [Machine.system_record, hc, if_true, on_pure, tried, probes,
            List.find?_cons, List.flatMap_singleton]
          rfl
      | false =>
          simp only [Machine.system_record, hc, Bool.false_eq_true, if_false, tried,
            List.find?_cons]
          rw [ih]
          rfl

theorem on_register {m : Machine} {r : LoadedModule} (h : m.registry.find? r.symbol = none) :
    (register r).on m = (.ok (), m.record (.registered r)) := by
  unfold register
  rw [on_get_bind, Registry.insert_of_find?_none h]
  rfl

theorem on_register_taken {m : Machine} {r old : LoadedModule}
    (h : m.registry.find? r.symbol = some old) :
    (register r).on m = (.error (.fault (.registeredTwice r.symbol)), m) := by
  unfold register
  rw [on_get_bind, Registry.insert_of_find?_some h]
  rfl

section Require
variable (exec : Execute) {m : Machine} {s : Symbol}

theorem on_loadCandidate_script (path : String) (h : m.registry.find? s = none) :
    (loadCandidate exec s ⟨path, .scriptSource⟩).on m =
      ((fun _ => ⟨s, .scriptSource, path, none⟩) <$> loadScript exec path).on
        (m.replay (scriptOpening s path)) := by
  have hreg := on_register (m := m.record (.chosen s ⟨path, .scriptSource⟩))
    (r := ⟨s, .scriptSource, path, none⟩) h
  unfold loadCandidate
  rw [on_record_bind]
  refine (on_bind_ok hreg _).trans ?_
  rw [on_note_bind, discard_bind, ← map_eq_pure_bind]
  rfl

/-- A library is installed, and then recorded unless its symbol got a record meanwhile. -/
theorem on_loadCandidate_library (path : String) :
    (loadCandidate exec s ⟨path, .nativeLibrary⟩).on m =
      match (installLibrary exec path).on (m.record (.chosen s ⟨path, .nativeLibrary⟩)) with
      | (.error stop, after) => (.error stop, after)
      | (.ok library, after) =>
        match after.registry.find? s with
        | none => (.ok ⟨s, .nativeLibrary, path, some library⟩,
            after.replay [.delivered s library,
              .registered ⟨s, .nativeLibrary, path, some library⟩])
        | some _ =>
          (.error (.fault (.registeredTwice s)), after.record (.delivered s library)) := by
  unfold loadCandidate
  rw [on_record_bind]
  dsimp only
  rw [on_bind]
  rcases (installLibrary exec path).on _ with ⟨stop | library, after⟩
  · rfl
  · dsimp only
    rw [on_record_bind]
    cases hfind : after.registry.find? s with
    | none =>
        have hreg := on_register (m := after.record (.delivered s library))
          (r := ⟨s, .nativeLibrary, path, some library⟩) hfind
        exact on_bind_ok hreg _
    | some old =>
        have hreg := on_register_taken (m := after.record (.delivered s library))
          (r := ⟨s, .nativeLibrary, path, some library⟩) hfind
        exact on_bind_error hreg _

/-- A require of a value is a require of the symbol that it names. -/
theorem require_eq {value : Value} (hs : value.symbol? = some s) :
    require exec value = requireSymbol exec s := by
  cases value with
  | symbol t =>
      cases hs
      rfl
  | string text =>
      cases hs
      rfl
  | _ => cases hs

theorem on_requireSymbol_known {r : LoadedModule} (h : m.registry.find? s = some r) :
    (requireSymbol exec s).on m =
      (.ok (.alreadyLoaded r), m.record (.noted (.alreadyLoaded s.name r.path))) := by
  unfold requireSymbol
  rw [on_get_bind, h]
  rfl

theorem on_requireSymbol_missing (h : m.registry.find? s = none)
    (hnone : ∀ c ∈ m.files s.name, ¬ m.system.isFile c.path) :
    (requireSymbol exec s).on m = (.ok (.notFound s),
      m.replay (m.settling ++ probes (m.files s.name) ++ [.noted (.notFound s.name)])) := by
  unfold requireSymbol
  rw [on_get_bind, h]
  have hfind : (m.files s.name).find? (fun c => m.system.isFile c.path) = none :=
    List.find?_eq_none.2 (fun c hc => by simpa using hnone c hc)
  simp only [on_bind, on_candidates, on_firstExisting, Machine.system_replay, hfind,
    tried_of_none hnone, Machine.replay_append, Machine.replay_cons, Machine.replay_nil, on_note,
    on_pure]

/-- The first file that exists is loaded, after it and those before it were looked for. -/
theorem on_requireSymbol_found {c : Candidate} (h : m.registry.find? s = none)
    (hfind : (m.files s.name).find? (fun c => m.system.isFile c.path) = some c) :
    (requireSymbol exec s).on m = (Requirement.resolved <$> loadCandidate exec s c).on
      (m.replay (m.settling ++ probes (tried m.system (m.files s.name)))) := by
  unfold requireSymbol
  rw [on_get_bind, h]
  simp only [on_bind, on_candidates, on_firstExisting, Machine.system_replay, hfind,
    Machine.replay_append, map_eq_pure_bind]

end Require

end ModuleLoader
