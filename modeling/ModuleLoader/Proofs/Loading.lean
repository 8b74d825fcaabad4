import ModuleLoader.Proofs.Orderly
import ModuleLoader.Proofs.Search

/-!
# One require, one load

What the events of a run are worth rests on what requires and loads do. A require of a known symbol
loads nothing, and any other calls the loader of its file once. A script is then read once and run
once, and a library is opened once and its entry point called once.

* `RequiresOnce` : a require of a symbol, case by case;
* `RunsOnce` : the load of a script file;
* `InstallsOnce` : the opening of a library;
* `on_compileFile`, `compileFile_ok` : a script file that is compiled;
* `LoadsSingly`, `loadsSingly` : all of it, whatever runs the programs.
-/

namespace ModuleLoader

open ModuleLoader.Action

def Machine.search (m : Machine) (name : String) : List Event :=
  m.settling ++ probes (tried m.system (m.files name))

def Machine.first? (m : Machine) (name : String) : Option Candidate :=
  (m.files name).find? (fun c => m.system.isFile c.path)

/-- A require of a symbol, and what the other ways to ask for its module make of it. -/
structure RequiresOnce (exec : Execute) (s : Symbol) (m : Machine) : Prop where
  required : ∀ value, value.symbol? = some s → require exec value = requireSymbol exec s
  orFail : ∀ value, value.symbol? = some s → (requireOrFail exec value).on m =
    match (requireSymbol exec s).on m with
    | (.ok (.notFound t), after) =>
      (.error (.fault (.moduleNotFound t ((after.files t.name).map Candidate.path))),
        after.replay after.settling)
    | other => other
  called : ∀ value, value.symbol? = some s →
    Builtin.require.call exec [value] = requirementValue <$> requireOrFail exec value ∧
      Builtin.tryRequire.call exec [value] = requirementValue <$> require exec value
  /-- Nothing is loaded for a symbol with a record. -/
  known : ∀ r, m.registry.find? s = some r → (requireSymbol exec s).on m =
    (.ok (.alreadyLoaded r), m.record (.noted (.alreadyLoaded s.name r.path)))
  missing : m.registry.find? s = none → m.first? s.name = none → (requireSymbol exec s).on m =
    (.ok (.notFound s), m.replay (m.search s.name ++ [.noted (.notFound s.name)]))
  /-- A script has its record before it is loaded. -/
  script : m.registry.find? s = none → ∀ path, m.first? s.name = some ⟨path, .scriptSource⟩ →
    (requireSymbol exec s).on m =
      ((fun _ => .resolved ⟨s, .scriptSource, path, none⟩) <$> loadScript exec path).on
        (m.replay (m.search s.name ++ scriptOpening s path))
  /-- A library is installed before it has its record. -/
  library : m.registry.find? s = none → ∀ path, m.first? s.name = some ⟨path, .nativeLibrary⟩ →
    (requireSymbol exec s).on m =
      match (installLibrary exec path).on
        (m.replay (m.search s.name ++ [.chosen s ⟨path, .nativeLibrary⟩])) with
      | (.error stop, after) => (.error stop, after)
      | (.ok library, after) =>
        match after.registry.find? s with
        | none => (.ok (.resolved ⟨s, .nativeLibrary, path, some library⟩),
            after.replay [.delivered s library,
              .registered ⟨s, .nativeLibrary, path, some library⟩])
        | some _ => (.error (.fault (.registeredTwice s)), after.record (.delivered s library))

/-- A script file is read, and its program is run once if it has one. -/
structure RunsOnce (exec : Execute) (path : String) (m : Machine) : Prop where
  runs : ∀ source program, m.system.readText path = .ok source →
    Script.parse m.system.names path source = .ok program → (loadScript exec path).on m =
      (exec program).on (m.replay [.consulted .read path, .noted (.executing path)])
  fails : (∀ source program, m.system.readText path = .ok source →
      Script.parse m.system.names path source ≠ .ok program) →
    ∃ (stop : Stop) (notes : List Note), (loadScript exec path).on m =
      (.error stop, m.replay (.consulted .read path :: notes.map .noted))

/-- A library is opened, and its entry point is called once if it has one. -/
structure InstallsOnce (exec : Execute) (path : String) (m : Machine) : Prop where
  refused : (∀ entryPoint install, m.system.openImage path ≠ .ok (.opens entryPoint install)) →
    ∃ (stop : Stop) (notes : List Note), (installLibrary exec path).on m =
      (.error stop, m.replay (.consulted .load path :: notes.map .noted))
  rejected : ∀ entryPoint install, m.system.openImage path = .ok (.opens entryPoint install) →
    entryPoint ≠ some m.configuration.entryPoint → (installLibrary exec path).on m =
      (.error (.fault (.library path .noEntryPoint)),
        m.replay [.consulted .load path, .library .opened path (m.openedCount + 1),
          .library .closed path (m.openedCount + 1)])
  /-- What the entry point does is what the script that it stands for does. -/
  called : ∀ install,
    m.system.openImage path = .ok (.opens (some m.configuration.entryPoint) install) →
      (installLibrary exec path).on m =
        (finishInstall exec ⟨path, m.openedCount + 1⟩ install).on
          (m.replay [.consulted .load path, .library .opened path (m.openedCount + 1),
            .library .installed path (m.openedCount + 1)])

/-- Whatever runs programs, no require and no load does anything twice. -/
structure LoadsSingly (exec : Execute) : Prop where
  requires : ∀ s m, RequiresOnce exec s m
  scripts : ∀ path m, RunsOnce exec path m
  libraries : ∀ path m, InstallsOnce exec path m

section
variable {path : String} {source : List Char} {m : Machine}

theorem on_readSource_text (h : m.system.readText path = .ok source) :
    (readSource path).on m = (.ok source, m.record (.consulted .read path)) := by
  unfold readSource
  rw [on_record_bind, on_get_bind, Machine.system_record, h]
  rfl

theorem on_readSource_obstacle {obstacle : Obstacle}
    (h : m.system.readText path = .error obstacle) :
    ∃ stop, (readSource path).on m = (.error stop, m.record (.consulted .read path)) := by
  unfold readSource
  rw [on_record_bind, on_get_bind, Machine.system_record, h]
  cases obstacle <;> exact ⟨_, rfl⟩

theorem on_readProgram_parsed {program : Script.Program}
    (h : Script.parse m.system.names path source = .ok program) :
    (readProgram path source).on m = (.ok program, m) := by
  unfold readProgram
  rw [on_get_bind, h]
  rfl

theorem on_readProgram_fault {fault : Script.SourceFault}
    (h : Script.parse m.system.names path source = .error fault) :
    ∃ notes : List Note, (readProgram path source).on m =
      (.error (.fault (.malformed path source fault)), m.replay (notes.map .noted)) := by
  unfold readProgram
  rw [on_get_bind, h]
  dsimp only
  split
  · exact ⟨[.parseError path fault.message], rfl⟩
  · exact ⟨[], rfl⟩

/-- A script file that has a text and parses is compiled. -/
theorem on_compileFile {program : Script.Program} (hread : m.system.readText path = .ok source)
    (hparse : Script.parse m.system.names path source = .ok program) :
    (compileFile path).on m = (.ok ⟨path, program⟩, m.record (.consulted .read path)) := by
  unfold compileFile
  rw [on_bind_ok (on_readSource_text hread),
    on_bind_ok (on_readProgram_parsed (by rwa [Machine.system_record])), on_pure]

theorem readProgram_ok {after : Machine} {program : Script.Program}
    (h : (readProgram path source).on m = (.ok program, after)) :
    Script.parse m.system.names path source = .ok program := by
  cases hparse : Script.parse m.system.names path source with
  | error fault =>
      obtain ⟨notes, hfault⟩ := on_readProgram_fault hparse
      rw [hfault] at h
      cases h
  | ok found =>
      rw [on_readProgram_parsed hparse] at h
      cases h
      rfl

theorem compileFile_ok {after : Machine} {compiled : Compiled}
    (h : (compileFile path).on m = (.ok compiled, after)) :
    ∃ text, m.system.readText path = .ok text ∧
      Script.parse m.system.names path text = .ok compiled.program := by
  obtain ⟨text, ready, hread, hrest⟩ := on_bind_eq_ok.1 h
  obtain ⟨program, parsed, hprogram, hcompiled⟩ := on_bind_eq_ok.1 hrest
  rw [on_pure] at hcompiled
  cases hcompiled
  cases htext : m.system.readText path with
  | error obstacle =>
      obtain ⟨stop, hstop⟩ := on_readSource_obstacle htext
      rw [hstop] at hread
      cases hread
  | ok source =>
      rw [on_readSource_text htext] at hread
      cases hread
      have hparse := readProgram_ok hprogram
      rw [Machine.system_record] at hparse
      exact ⟨text, rfl, hparse⟩

end

section
variable (exec : Execute) {s : Symbol}

theorem on_resolved_script (path : String) {m : Machine} (new : m.registry.find? s = none) :
    (Requirement.resolved <$> loadCandidate exec s ⟨path, .scriptSource⟩).on m =
      ((fun _ => .resolved ⟨s, .scriptSource, path, none⟩) <$> loadScript exec path).on
        (m.replay (scriptOpening s path)) := by
  rw [on_map, on_loadCandidate_script exec path new, on_map, on_map]
  cases ((loadScript exec path).on (m.replay (scriptOpening s path))).1 <;> rfl

theorem on_resolved_library (path : String) (m : Machine) :
    (Requirement.resolved <$> loadCandidate exec s ⟨path, .nativeLibrary⟩).on m =
      match (installLibrary exec path).on (m.replay [.chosen s ⟨path, .nativeLibrary⟩]) with
      | (.error stop, after) => (.error stop, after)
      | (.ok library, after) =>
        match after.registry.find? s with
        | none => (.ok (.resolved ⟨s, .nativeLibrary, path, some library⟩),
            after.replay [.delivered s library,
              .registered ⟨s, .nativeLibrary, path, some library⟩])
        | some _ =>
          (.error (.fault (.registeredTwice s)), after.record (.delivered s library)) := by
  rw [on_map, on_loadCandidate_library, Machine.replay_cons, Machine.replay_nil]
  rcases (installLibrary exec path).on (m.record (.chosen s ⟨path, .nativeLibrary⟩)) with
    ⟨stop | library, after⟩
  · rfl
  · dsimp only
    cases after.registry.find? s <;> rfl

end

section
variable (exec : Execute) (s : Symbol) (path : String) (m : Machine)

theorem on_requireOrFail {value : Value} (hs : value.symbol? = some s) :
    (requireOrFail exec value).on m =
      match (requireSymbol exec s).on m with
      | (.ok (.notFound t), after) =>
        (.error (.fault (.moduleNotFound t ((after.files t.name).map Candidate.path))),
          after.replay after.settling)
      | other => other := by
  unfold requireOrFail
  rw [require_eq exec hs]
  rcases hrequire : (requireSymbol exec s).on m with ⟨stop | requirement, after⟩
  · exact on_bind_error hrequire _
  · rw [on_bind_ok hrequire]
    cases requirement with
    | notFound t => exact on_bind_ok (on_candidates _ _) _
    | _ => rfl

theorem requiresOnce : RequiresOnce exec s m where
  required _ hs := require_eq exec hs
  orFail _ hs := on_requireOrFail exec s m hs
  called _ _ := ⟨rfl, rfl⟩
  known _ h := on_requireSymbol_known exec h
  missing new hnone := by
    have habsent : ∀ c ∈ m.files s.name, ¬ m.system.isFile c.path :=
      fun c hc => by simpa using List.find?_eq_none.1 hnone c hc
    rw [on_requireSymbol_missing exec new habsent, Machine.search, tried_of_none habsent]
  script new path hfirst := by
    have hready : (m.replay (m.search s.name)).registry.find? s = none := by
      rwa [Machine.search, registry_search]
    refine (on_requireSymbol_found exec new hfirst).trans ?_
    refine (on_resolved_script exec path hready).trans ?_
    rw [Machine.replay_append]
  library new path hfirst := by
    refine (on_requireSymbol_found exec new hfirst).trans ?_
    refine (on_resolved_library exec path (m.replay (m.search s.name))).trans ?_
    rw [Machine.replay_append]

theorem runsOnce : RunsOnce exec path m where
  runs source program hread hparse := by
    unfold loadScript
    rw [on_bind_ok (on_compileFile hread hparse), on_note_bind, Machine.replay_cons,
      Machine.replay_cons, Machine.replay_nil]
  fails hnone := by
    unfold loadScript compileFile
    rw [bind_assoc]
    cases hread : m.system.readText path with
    | error obstacle =>
        obtain ⟨stop, hstop⟩ := on_readSource_obstacle hread
        exact ⟨stop, [], on_bind_error hstop _⟩
    | ok source =>
        cases hparse : Script.parse m.system.names path source with
        | ok program => exact absurd hparse (hnone source program hread)
        | error fault =>
            obtain ⟨notes, hfault⟩ := on_readProgram_fault
              (m := m.record (.consulted .read path)) (by rwa [Machine.system_record])
            refine ⟨.fault (.malformed path source fault), notes, ?_⟩
            rw [on_bind_ok (on_readSource_text hread), bind_assoc, on_bind_error hfault,
              Machine.replay_cons]

theorem installsOnce : InstallsOnce exec path m where
  refused hnone := by
    rw [on_installLibrary]
    cases himage : m.system.openImage path with
    | error obstacle =>
        cases obstacle with
        | nulInPath => exact ⟨_, [], rfl⟩
        | _ => exact ⟨_, [.openFailure _], rfl⟩
    | ok image =>
        cases image with
        | refuses diagnostic => exact ⟨_, [.openFailure diagnostic], rfl⟩
        | opens entryPoint install => exact absurd himage (hnone entryPoint install)
  rejected entryPoint install himage hentry := by
    rw [on_installLibrary, himage]
    exact if_neg hentry
  called install himage := by
    rw [on_installLibrary, himage]
    exact if_pos rfl

end

theorem installLibrary_ok {exec : Execute} {path : String} {m after : Machine} {library : Library}
    (h : (installLibrary exec path).on m = (.ok library, after)) :
    library = ⟨path, m.openedCount + 1⟩ := by
  rw [on_installLibrary] at h
  split at h
  · cases h
  · cases h
  · cases h
  · split at h
    · exact finishInstall_ok h
    · cases h

theorem loadsSingly (exec : Execute) : LoadsSingly exec :=
  ⟨requiresOnce exec, runsOnce exec, installsOnce exec⟩

end ModuleLoader
