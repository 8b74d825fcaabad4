import ModuleLoader.Proofs.History

/-!
# A require of a symbol without a record

At every moment of a run, a require of a symbol that has no record looks for the candidates of the
configuration in order and loads the first that exists.

* `Machine.recordOf` : the record that the load of a candidate leads to;
* `loadCandidate_ok` : what a load that comes back leaves behind;
* `Missing`, `Found` : what a require does where no candidate exists, and where one does;
* `require_new` : it does the one or the other.
-/

namespace ModuleLoader

open ModuleLoader.Action

/-- The record that the load of a candidate leads to. A library is opened under the next handle. -/
def Machine.recordOf (m : Machine) (s : Symbol) (c : Candidate) : LoadedModule :=
  match c.kind with
  | .nativeLibrary => ⟨s, .nativeLibrary, c.path, some ⟨c.path, m.openedCount + 1⟩⟩
  | .scriptSource => ⟨s, .scriptSource, c.path, none⟩

@[simp] theorem symbol_recordOf (m : Machine) (s : Symbol) (c : Candidate) :
    (m.recordOf s c).symbol = s := by
  unfold Machine.recordOf
  split <;> rfl

theorem recordOf_congr {m n : Machine} (h : m.openedCount = n.openedCount) (s : Symbol)
    (c : Candidate) : m.recordOf s c = n.recordOf s c := by
  unfold Machine.recordOf
  rw [h]

def Machine.missing (m : Machine) (s : Symbol) (candidates : List Candidate) : List Event :=
  m.settling ++ probes candidates ++ [.noted (.notFound s.name)]

/-- What a require does where none of the candidates exists. -/
structure Missing (exec : Execute) (value : Value) (s : Symbol) (candidates : List Candidate)
    (m : Machine) : Prop where
  result : (require exec value).on m = (.ok (.notFound s), m.replay (m.missing s candidates))
  registry : (m.replay (m.missing s candidates)).registry = m.registry
  globals : (m.replay (m.missing s candidates)).globals = m.globals
  output : printedText (m.missing s candidates) = ""
  libraries : libraryEvents (m.missing s candidates) = []
  failure : ((requireOrFail exec value).on m).1 =
    .error (.fault (.moduleNotFound s (candidates.map Candidate.path)))
  /-- Of the functions of scripts, the one that tries has no value, and the other one fails. -/
  tried : ((Builtin.tryRequire.call exec [value]).on m).1 = .ok .nil
  required : ((Builtin.require.call exec [value]).on m).1 =
    .error (.fault (.moduleNotFound s (candidates.map Candidate.path)))

/-- What a require does where a candidate is the first that exists; `m` is the state before and
`ready` that after it was found. -/
structure Found (exec : Execute) (value : Value) (s : Symbol) (c : Candidate) (m ready : Machine) :
    Prop where
  /-- A script gets its record and is loaded then. -/
  script : c.kind = .scriptSource → (require exec value).on m =
    ((fun _ => .resolved (m.recordOf s c)) <$> loadScript exec c.path).on
      (ready.replay (scriptOpening s c.path))
  /-- A library is installed and gets its record then, if its symbol got none meanwhile. -/
  library : c.kind = .nativeLibrary → (require exec value).on m =
    match (installLibrary exec c.path).on (ready.record (.chosen s c)) with
    | (.error stop, after) => (.error stop, after)
    | (.ok library, after) =>
      match after.registry.find? s with
      | none => (.ok (.resolved (m.recordOf s c)),
          after.replay [.delivered s library, .registered (m.recordOf s c)])
      | some _ => (.error (.fault (.registeredTwice s)), after.record (.delivered s library))
  /-- A require that comes back has resolved the symbol, and the registry knows the record. -/
  resolved : ∀ requirement after, (require exec value).on m = (.ok requirement, after) →
    requirement = .resolved (m.recordOf s c) ∧
      ∀ t, s.same t → after.registry.find? t = some (m.recordOf s c)
  orFail : (requireOrFail exec value).on m = (require exec value).on m
  /-- The functions of scripts have the symbol in the requested spelling as their value. -/
  called : ∀ function ∈ [Builtin.require, Builtin.tryRequire],
    (function.call exec [value]).on m = (((require exec value).on m).1.map (fun _ => .symbol s),
      ((require exec value).on m).2)

/-! ## Loads that come back -/

section Loads
variable {exec : Execute} {m after : Machine} {s : Symbol}
variable (hexec : ∀ program, (exec program).Orderly)

theorem ok_of_loadCandidate_library {path : String} {r : LoadedModule}
    (h : (loadCandidate exec s ⟨path, .nativeLibrary⟩).on m = (.ok r, after)) :
    r = m.recordOf s ⟨path, .nativeLibrary⟩ ∧
      ∀ t, s.same t → after.registry.find? t = some r := by
  rw [on_loadCandidate_library] at h
  rcases hinstall : (installLibrary exec path).on
    (m.record (.chosen s ⟨path, .nativeLibrary⟩)) with ⟨stop | library, installed⟩
  · rw [hinstall] at h
    cases h
  · rw [hinstall] at h
    dsimp only at h
    split at h
    · rename_i still
      cases h
      have hopened : (m.record (.chosen s ⟨path, .nativeLibrary⟩)).openedCount =
          m.openedCount := by simp [Machine.openedCount]
      have hlibrary := installLibrary_ok hinstall
      rw [hopened] at hlibrary
      subst hlibrary
      refine ⟨rfl, fun t ht => ?_⟩
      exact Machine.find?_record_registered (m := installed.record (.delivered s _))
        (r := ⟨s, .nativeLibrary, path, some ⟨path, m.openedCount + 1⟩⟩) still ht
    · cases h

include hexec

theorem ok_of_loadCandidate_script {path : String} (new : m.registry.find? s = none)
    {r : LoadedModule} (h : (loadCandidate exec s ⟨path, .scriptSource⟩).on m = (.ok r, after)) :
    r = m.recordOf s ⟨path, .scriptSource⟩ ∧
      ∀ t, s.same t → after.registry.find? t = some r := by
  rw [on_loadCandidate_script exec path new, on_map] at h
  obtain ⟨events, hafter, -⟩ := orderly_loadScript hexec path (m.replay (scriptOpening s path))
  rw [hafter] at h
  obtain ⟨hr, rfl⟩ := Prod.mk.inj h
  cases hload : ((loadScript exec path).on (m.replay (scriptOpening s path))).1 with
  | error stop =>
      rw [hload] at hr
      cases hr
  | ok value =>
      rw [hload] at hr
      obtain rfl := Except.ok.inj hr
      refine ⟨rfl, fun t ht => ?_⟩
      exact Machine.find?_replay (Course.find?_script path new ht) events

/-- A load that comes back leaves its record in the registry. -/
theorem loadCandidate_ok {c : Candidate} (new : m.registry.find? s = none) {r : LoadedModule}
    (h : (loadCandidate exec s c).on m = (.ok r, after)) :
    r = m.recordOf s c ∧ ∀ t, s.same t → after.registry.find? t = some r := by
  obtain ⟨path, kind⟩ := c
  cases kind with
  | scriptSource => exact ok_of_loadCandidate_script hexec new h
  | nativeLibrary => exact ok_of_loadCandidate_library h

end Loads

/-! ## Requires -/

section Requires
variable {depth : Nat} {value : Value} {s : Symbol} {m : Machine}

theorem quiet_missing {candidates : List Candidate} {event : Event}
    (h : event ∈ m.missing s candidates) : event.isQuiet := by
  rcases List.mem_append.1 h with h | h
  · exact quiet_search candidates h
  · obtain rfl := List.mem_singleton.1 h
    rfl

theorem printedText_quiet {events : List Event} (h : ∀ event ∈ events, event.isQuiet) :
    printedText events = "" := by
  unfold printedText
  rw [List.filterMap_eq_nil_iff.2 (fun event he => ?_)]
  · rfl
  · have hquiet := h event he
    cases event with
    | printed => cases hquiet
    | _ => rfl

theorem libraryEvents_quiet {events : List Event} (h : ∀ event ∈ events, event.isQuiet) :
    libraryEvents events = [] := by
  refine List.filterMap_eq_nil_iff.2 (fun event he => ?_)
  have hquiet := h event he
  cases event with
  | library => cases hquiet
  | _ => rfl

theorem missing_of_none (hs : value.symbol? = some s) (new : m.registry.find? s = none)
    {candidates : List Candidate} (hfiles : ∀ n, m.Leads n → n.files s.name = candidates)
    (hnone : ∀ c ∈ candidates, ¬ m.system.isFile c.path) :
    Missing (execute depth) value s candidates m := by
  have hm := hfiles m (.refl m)
  subst hm
  have hresult : (require (execute depth) value).on m =
      (.ok (.notFound s), m.replay (m.missing s (m.files s.name))) := by
    rw [require_eq _ hs]
    exact on_requireSymbol_missing _ new hnone
  have hleads : m.Leads (m.replay (m.missing s (m.files s.name))) := by
    obtain ⟨events, hafter, hc⟩ := orderly_require (orderly_execute depth) value m
    rw [hresult] at hafter
    exact ⟨events, hc.course.allowsAll, hafter ▸ .refl _⟩
  have hfailure : ((requireOrFail (execute depth) value).on m).1 =
      .error (.fault (.moduleNotFound s ((m.files s.name).map Candidate.path))) := by
    unfold requireOrFail
    rw [on_bind_ok hresult]
    dsimp only
    rw [on_bind_ok (on_candidates _ _), hfiles _ hleads, on_fail]
  obtain ⟨hregistry, hglobals, -⟩ :=
    Machine.replay_quiet (m := m) (fun _ h => quiet_missing (s := s) (m := m) h)
  refine ⟨hresult, hregistry, hglobals, printedText_quiet (fun _ => quiet_missing),
    libraryEvents_quiet (fun _ => quiet_missing), hfailure, ?_, ?_⟩
  · change ((requirementValue <$> require (execute depth) value).on m).1 = _
    rw [on_map, hresult]
    rfl
  · change ((requirementValue <$> requireOrFail (execute depth) value).on m).1 = _
    rw [on_map, hfailure]
    rfl

section
variable {exec : Execute} {r : LoadedModule}
variable (h : ∀ requirement after, (require exec value).on m = (.ok requirement, after) →
  requirement = .resolved r)

include h

theorem requireOrFail_of_resolved :
    (requireOrFail exec value).on m = (require exec value).on m := by
  unfold requireOrFail
  rcases hrequire : (require exec value).on m with ⟨stop | requirement, after⟩
  · exact on_bind_error hrequire _
  · obtain rfl := h _ _ hrequire
    exact on_bind_ok hrequire _

theorem call_of_resolved {function : Builtin}
    (hfunction : function ∈ [Builtin.require, Builtin.tryRequire]) :
    (function.call exec [value]).on m =
      (((require exec value).on m).1.map (fun _ => .symbol r.symbol),
        ((require exec value).on m).2) := by
  have hvalue : ((require exec value).on m).1.map requirementValue =
      ((require exec value).on m).1.map (fun _ => .symbol r.symbol) := by
    rcases hrequire : (require exec value).on m with ⟨stop | requirement, after⟩
    · rfl
    · obtain rfl := h _ _ hrequire
      rfl
  simp only [List.mem_cons, List.not_mem_nil, or_false] at hfunction
  rcases hfunction with rfl | rfl
  · change (requirementValue <$> requireOrFail exec value).on m = _
    rw [on_map, requireOrFail_of_resolved h, hvalue]
  · change (requirementValue <$> require exec value).on m = _
    rw [on_map, hvalue]

end

theorem found_of_first (hs : value.symbol? = some s) (new : m.registry.find? s = none)
    {before after : List Candidate} {c : Candidate} (hfiles : m.files s.name = before ++ c :: after)
    (hbefore : ∀ d ∈ before, ¬ m.system.isFile d.path) (hc : m.system.isFile c.path) :
    Found (execute depth) value s c m (m.replay (m.settling ++ probes (before ++ [c]))) := by
  obtain ⟨hregistry, -, hopened⟩ := Machine.replay_quiet (m := m)
    (fun _ h => quiet_search (before ++ [c]) h)
  have hload : (require (execute depth) value).on m =
      (Requirement.resolved <$> loadCandidate (execute depth) s c).on
        (m.replay (m.settling ++ probes (before ++ [c]))) := by
    rw [require_eq _ hs, on_requireSymbol_found (execute depth) (c := c) new, hfiles,
      tried_of_first hbefore hc]
    rw [hfiles]
    exact find?_of_first hbefore hc
  generalize m.replay (m.settling ++ probes (before ++ [c])) = ready at *
  rw [← hregistry] at new
  have hrecord := recordOf_congr hopened s c
  have hresolved : ∀ requirement after, (require (execute depth) value).on m =
      (.ok requirement, after) → requirement = .resolved (m.recordOf s c) ∧
        ∀ t, s.same t → after.registry.find? t = some (m.recordOf s c) := by
    intro requirement after h
    rw [hload, on_map] at h
    rcases hcandidate : (loadCandidate (execute depth) s c).on ready with ⟨stop | r, state⟩
    · rw [hcandidate] at h
      cases h
    · rw [hcandidate] at h
      cases h
      obtain ⟨rfl, hfind⟩ := loadCandidate_ok (orderly_execute depth) new hcandidate
      rw [← hrecord]
      exact ⟨rfl, hfind⟩
  have hvalue := fun requirement after h => (hresolved requirement after h).1
  refine ⟨fun hkind => ?_, fun hkind => ?_, hresolved, requireOrFail_of_resolved hvalue,
    fun function hfunction => ?_⟩
  · rw [hload, ← hrecord]
    obtain ⟨path, kind⟩ := c
    subst hkind
    exact on_resolved_script _ path new
  · rw [hload, ← hrecord]
    obtain ⟨path, kind⟩ := c
    subst hkind
    refine (on_resolved_library _ path ready).trans ?_
    rw [Machine.replay_cons, Machine.replay_nil]
    rcases hinstall : (installLibrary (execute depth) path).on
      (ready.record (.chosen s ⟨path, .nativeLibrary⟩)) with ⟨stop | library, installed⟩
    · rfl
    · rw [installLibrary_ok hinstall]
      rfl
  · rw [call_of_resolved hvalue hfunction, symbol_recordOf]

end Requires

/-- At every moment of a run, a require of a symbol without a record looks for the candidates of
the configuration in order. If none exists it changes nothing; else it loads the first one. -/
theorem require_new (settings : Settings) (m : Machine) (configuration : Configuration)
    (turns : List Turn) {x : Machine}
    (hx : x ∈ moments settings (m.restart configuration) turns) (depth : Nat) {value : Value}
    {s : Symbol} (hs : value.symbol? = some s) (new : x.registry.find? s = none) :
    ((∀ c ∈ configuration.candidates s.name, ¬ x.system.isFile c.path) →
        Missing (execute depth) value s (configuration.candidates s.name) x) ∧
      ∀ before c after, configuration.candidates s.name = before ++ c :: after →
        (∀ d ∈ before, ¬ x.system.isFile d.path) → x.system.isFile c.path →
          Found (execute depth) value s c x
            (x.replay (x.settling ++ probes (before ++ [c]))) := by
  have hfiles (n : Machine) (hn : x.Leads n) :
      n.files s.name = configuration.candidates s.name := by
    have hstart := (leads_of_mem_moments hx).trans hn
    unfold Machine.files
    rw [hstart.searchPath rfl, hstart.configuration]
    rfl
  refine ⟨missing_of_none hs new hfiles, fun before c after hsplit hbefore hc => ?_⟩
  exact found_of_first hs new ((hfiles x (.refl x)).trans hsplit) hbefore hc

/-- The loader of one script finds that script, and nothing else. -/
theorem require_new_faulty :
    Missing (execute nestingLimit) (.string "c") ⟨"c"⟩
        [⟨"m/c.so", .nativeLibrary⟩, ⟨"m/c.lps", .scriptSource⟩] faulty ∧
      Found (execute nestingLimit) (.string "b") ⟨"b"⟩ ⟨"m/b.lps", .scriptSource⟩ faulty
        (faulty.replay (faulty.settling ++
          probes [⟨"m/b.so", .nativeLibrary⟩, ⟨"m/b.lps", .scriptSource⟩])) := by
  have hfirst : faulty ∈ moments {} faulty [] := List.mem_singleton_self _
  constructor
  · refine (require_new {} _ _ [] hfirst nestingLimit (s := ⟨"c"⟩) rfl rfl).1 ?_
    decide +kernel
  · refine (require_new {} _ _ [] hfirst nestingLimit (s := ⟨"b"⟩) rfl rfl).2
      [⟨"m/b.so", .nativeLibrary⟩] ⟨"m/b.lps", .scriptSource⟩ [] ?_ ?_ ?_
    · decide +kernel
    · decide +kernel
    · decide +kernel

end ModuleLoader
