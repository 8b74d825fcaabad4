import ModuleLoader.Proofs.Conduct

/-!
# Actions that take a course

* `Action.Follows`, `Action.Orderly` : the state after an action is the one before it with the
  events of a course replayed, from one state or from every state;
* `Follows.bind`, `Follows.after`, `Orderly.bind`, `Orderly.map` : how actions are put together;
* `orderly_loadScript`, `orderly_runSource` : scripts are read and run;
* `Installation`, `exists_installation` : what comes of opening and installing a library;
* `orderly_loadLibrary` : libraries are loaded by their path.
-/

namespace ModuleLoader

open ModuleLoader.Action

namespace Action
variable {α β : Type}

/-- From this state the action takes a course. -/
def Follows (a : Action α) (m : Machine) : Prop :=
  ∃ events, (a.on m).2 = m.replay events ∧ Conduct m events (stop? (a.on m).1)

/-- The action takes a course from every state. -/
def Orderly (a : Action α) : Prop := ∀ m, a.Follows m

theorem Follows.after {a b : Action α} {m : Machine} {events : List Event}
    (hb : b.Follows (m.replay events)) (hc : Conduct m events none)
    (h : a.on m = b.on (m.replay events)) : a.Follows m := by
  obtain ⟨others, hafter, hrest⟩ := hb
  refine ⟨events ++ others, ?_, ?_⟩
  · rw [h, hafter, Machine.replay_append]
  · rw [h]
    exact .append hc hrest

theorem Follows.bind {a : Action α} {f : α → Action β} {m : Machine} (ha : a.Follows m)
    (hf : ∀ x after, a.on m = (.ok x, after) → (f x).Follows after) : (a >>= f).Follows m := by
  obtain ⟨events, hafter, hc⟩ := ha
  rcases h : a.on m with ⟨stop | x, after⟩
  · rw [h] at hafter hc
    refine ⟨events, ?_, ?_⟩
    · rw [on_bind_error h]
      exact hafter
    · rw [on_bind_error h]
      exact hc
  · rw [h] at hafter hc
    obtain rfl : after = m.replay events := hafter
    exact (hf x _ h).after hc (on_bind_ok h f)

theorem orderly_pure (x : α) : (pure x : Action α).Orderly := fun _ => ⟨[], rfl, .done⟩

theorem orderly_get : (get : Action Machine).Orderly := fun _ => ⟨[], rfl, .done⟩

theorem orderly_throw {stop : Stop} (h : stop.isRefusedRecord = false) :
    (throw stop : Action α).Orderly :=
  fun _ => ⟨[], rfl, .halt h⟩

theorem orderly_fail {fault : Fault} (h : (Stop.fault fault).isRefusedRecord = false) :
    (fail fault : Action α).Orderly :=
  orderly_throw h

theorem orderly_record {event : Event} (h : event.isAside) : (record event).Orderly :=
  fun _ => ⟨[event], rfl, .aside h⟩

theorem orderly_note {n : Note} (h : (Event.noted n).isAside) : (note n).Orderly :=
  orderly_record h

theorem Orderly.bind {a : Action α} {f : α → Action β} (ha : a.Orderly)
    (hf : ∀ x, (f x).Orderly) : (a >>= f).Orderly :=
  fun m => (ha m).bind (fun x after _ => hf x after)

theorem Follows.map {a : Action α} {m : Machine} (f : α → β) (ha : a.Follows m) :
    (f <$> a).Follows m := by
  rw [map_eq_pure_bind]
  exact ha.bind (fun x after _ => orderly_pure (f x) after)

theorem Orderly.map {a : Action α} (f : α → β) (ha : a.Orderly) : (f <$> a).Orderly :=
  fun m => (ha m).map f

end Action

/-! ## Paths and scripts -/

theorem orderly_stringOf (value : Value) : (stringOf value).Orderly := by
  cases value with
  | string text => exact orderly_pure text
  | _ => exact orderly_fail rfl

theorem orderly_forM_note (notes : List Note) (h : ∀ n ∈ notes, (Event.noted n).isAside) :
    (notes.forM note : Action Unit).Orderly := by
  induction notes with
  | nil => exact orderly_pure ()
  | cons n rest ih =>
      refine (orderly_note (h n List.mem_cons_self)).bind (fun _ => ?_)
      exact ih (fun k hk => h k (List.mem_cons_of_mem _ hk))

theorem isAside_expansionNotes (path : String) (failure : Path.Failure) {n : Note}
    (hn : n ∈ expansionNotes path failure) : (Event.noted n).isAside := by
  unfold expansionNotes at hn
  split at hn <;> simp only [List.mem_cons, List.not_mem_nil, or_false] at hn
  · rcases hn with rfl | rfl <;> rfl
  · subst hn
    rfl
  · subst hn
    rfl

theorem orderly_expandPath (path : String) : (expandPath path).Orderly := by
  unfold expandPath
  refine orderly_get.bind (fun m => ?_)
  split
  · exact orderly_pure _
  · exact orderly_fail rfl
  · refine (orderly_forM_note _ (fun n hn => isAside_expansionNotes _ _ hn)).bind (fun _ => ?_)
    exact orderly_pure none

theorem orderly_fileExists (path : String) : (fileExists path).Orderly :=
  (orderly_record rfl).bind (fun _ => orderly_get.bind (fun _ => orderly_pure _))

theorem orderly_readProgram (file : String) (source : List Char) :
    (readProgram file source).Orderly := by
  unfold readProgram
  refine orderly_get.bind (fun m => ?_)
  split
  · exact orderly_pure _
  · split
    · exact (orderly_note rfl).bind (fun _ => orderly_fail rfl)
    · exact orderly_fail rfl

theorem orderly_readSource (path : String) : (readSource path).Orderly := by
  refine (orderly_record rfl).bind (fun _ => orderly_get.bind (fun m => ?_))
  split
  · exact orderly_pure _
  · exact orderly_fail rfl
  · exact orderly_fail rfl

theorem orderly_compileFile (path : String) : (compileFile path).Orderly :=
  (orderly_readSource path).bind (fun _ =>
    (orderly_readProgram path _).bind (fun _ => orderly_pure _))

section Loading
variable {exec : Execute} (hexec : ∀ program, (exec program).Orderly)

include hexec

theorem orderly_loadScript (path : String) : (loadScript exec path).Orderly :=
  (orderly_compileFile path).bind (fun _ => (orderly_note rfl).bind (fun _ => hexec _))

theorem orderly_runSource (file : String) (source : List Char) :
    (runSource exec file source).Orderly :=
  (orderly_readProgram file source).bind (fun _ => hexec _)

end Loading

/-! ## Libraries -/

/-- What the entry point of a library does once it is called, and the library after that. -/
def finishInstall (exec : Execute) (library : Library) (install : Option String) :
    Action Library := do
  match install with
  | some source => discard (runSource exec installFile source.toList)
  | none => pure ()
  note (.installed library.path)
  return library

theorem finishInstall_ok {exec : Execute} {m after : Machine} {library result : Library}
    {install : Option String}
    (h : (finishInstall exec library install).on m = (.ok result, after)) : result = library := by
  have hrest (n : Machine)
      (hn : (do note (.installed library.path); return library : Action Library).on n =
        (.ok result, after)) : result = library := by
    rw [on_note_bind, on_pure] at hn
    exact (Except.ok.inj (Prod.mk.inj hn).1).symm
  cases install with
  | none => exact hrest m h
  | some source =>
      unfold finishInstall at h
      dsimp only at h
      rcases hrun : (discard (runSource exec installFile source.toList)).on m with ⟨stop | _, n⟩
      · rw [on_bind_error hrun] at h
        cases h
      · rw [on_bind_ok hrun] at h
        exact hrest n h

theorem openedCount_record_consulted (m : Machine) (purpose : FileUse) (path : String) :
    (m.record (.consulted purpose path)).openedCount = m.openedCount := by
  simp [Machine.openedCount]

/-- A library is refused, closed again, or opened under the next handle and installed. -/
theorem on_installLibrary (exec : Execute) (path : String) (m : Machine) :
    (installLibrary exec path).on m =
      match m.system.openImage path with
      | .error .nulInPath => (.error (.fault .nulInPath), m.record (.consulted .load path))
      | .error obstacle =>
        (refuseLibrary path (openingDiagnostic path obstacle)).on (m.record (.consulted .load path))
      | .ok (.refuses diagnostic) =>
        (refuseLibrary path diagnostic).on (m.record (.consulted .load path))
      | .ok (.opens entryPoint install) =>
        if entryPoint = some m.configuration.entryPoint then
          (finishInstall exec ⟨path, m.openedCount + 1⟩ install).on
            (m.replay [.consulted .load path, .library .opened path (m.openedCount + 1),
              .library .installed path (m.openedCount + 1)])
        else
          (.error (.fault (.library path .noEntryPoint)),
            m.replay [.consulted .load path, .library .opened path (m.openedCount + 1),
              .library .closed path (m.openedCount + 1)]) := by
  unfold installLibrary openLibrary
  simp only [bind_assoc, on_record_bind, on_get_bind, Machine.system_record]
  cases himage : m.system.openImage path with
  | error obstacle => cases obstacle <;> rfl
  | ok image =>
      cases image with
      | refuses diagnostic => rfl
      | opens entryPoint install =>
          simp only [bind_assoc, on_record_bind, pure_bind, on_get_bind,
            Machine.configuration_record, openedCount_record_consulted, Machine.replay_cons,
            Machine.replay_nil]
          split
          · unfold callEntryPoint finishInstall
            cases install <;> rfl
          · rfl

/-- What comes of opening and installing the library at a path. -/
inductive Installation (m : Machine) (path : String) : List Event → Except Stop Library → Prop
  | unopened {events : List Event} {stop : Stop} (aside : ∀ event ∈ events, event.isAside)
      (other : stop.isRefusedRecord = false) :
      Installation m path (.consulted .load path :: events) (.error stop)
  | rejected {stop : Stop} (hides : m.exposes path = false)
      (other : stop.isRefusedRecord = false) :
      Installation m path (m.opening path) (.error stop)
  /-- What the entry point runs stops. -/
  | raised {events : List Event} {stop : Stop} (exposes : m.exposes path)
      (run : Conduct (m.replay (m.opening path)) events (some stop)) :
      Installation m path (m.opening path ++ events) (.error stop)
  | installed {events : List Event} (exposes : m.exposes path)
      (run : Conduct (m.replay (m.opening path)) events none) :
      Installation m path (m.opening path ++ events) (.ok (m.next path))

namespace Installation
variable {m : Machine} {path : String} {asking : Option Symbol} {events : List Event}

theorem conduct_error {stop : Stop} (new : ∀ s ∈ asking, m.registry.find? s = none)
    (h : Installation (m.replay (asked path asking)) path events (.error stop)) :
    Conduct m (asked path asking ++ events) (some stop) := by
  cases h with
  | unopened aside other => exact .unopened new aside other
  | rejected hides other =>
    rw [Machine.exposes_replay] at hides
    rw [opening_asked]
    exact .rejected new hides other
  | raised exposes run =>
    rw [Machine.exposes_replay] at exposes
    rw [← Machine.replay_append, opening_asked] at run
    rw [opening_asked, ← List.append_assoc]
    exact .raised new exposes run

theorem conduct_ok {library : Library} {ending : List Event} {stop : Option Stop}
    (new : ∀ s ∈ asking, m.registry.find? s = none)
    (h : Installation (m.replay (asked path asking)) path events (.ok library))
    (ends : library = m.next path →
      Ending library (m.replay (asked path asking ++ events)) asking ending stop) :
    Conduct m (asked path asking ++ events ++ ending) stop := by
  cases h with
  | installed exposes run =>
    have hends := ends (next_asked path asking m)
    rw [Machine.exposes_replay] at exposes
    rw [← Machine.replay_append, opening_asked] at run
    rw [opening_asked, next_asked, ← List.append_assoc] at hends
    rw [opening_asked, ← List.append_assoc]
    exact .load new exposes run hends

end Installation

theorem on_refuseLibrary {α : Type} (path diagnostic : String) (m : Machine) :
    (refuseLibrary path diagnostic : Action α).on m =
      (.error (.fault (.library path (.openFailed diagnostic))),
        m.record (.noted (.openFailure diagnostic))) := rfl

theorem Machine.opening_of_exposes {m : Machine} {path : String} (h : m.exposes path) :
    m.opening path = [.consulted .load path, .library .opened path (m.openedCount + 1),
      .library .installed path (m.openedCount + 1)] := by
  rw [Machine.opening, Machine.answer, if_pos h]
  rfl

theorem Machine.opening_of_hides {m : Machine} {path : String} (h : m.exposes path = false) :
    m.opening path = [.consulted .load path, .library .opened path (m.openedCount + 1),
      .library .closed path (m.openedCount + 1)] := by
  rw [Machine.opening, Machine.answer, if_neg (by rw [h]; exact Bool.false_ne_true)]
  rfl

section Installing
variable {exec : Execute} (hexec : ∀ program, (exec program).Orderly)

include hexec

theorem orderly_finishInstall (library : Library) (install : Option String) :
    (finishInstall exec library install).Orderly := by
  have hrest : (do note (.installed library.path); return library : Action Library).Orderly :=
    (orderly_note rfl).bind (fun _ => orderly_pure _)
  cases install with
  | none => exact (orderly_pure ()).bind (fun _ => hrest)
  | some source => exact ((orderly_runSource hexec _ _).map _).bind (fun _ => hrest)

theorem installation_finishInstall {path : String} {m : Machine} (exposes : m.exposes path)
    (install : Option String) :
    ∃ events, ((finishInstall exec (m.next path) install).on (m.replay (m.opening path))).2 =
        m.replay events ∧
      Installation m path events
        ((finishInstall exec (m.next path) install).on (m.replay (m.opening path))).1 := by
  obtain ⟨events, hafter, run⟩ :=
    orderly_finishInstall hexec (m.next path) install (m.replay (m.opening path))
  refine ⟨m.opening path ++ events, ?_, ?_⟩
  · rw [hafter, Machine.replay_append]
  · rcases h : (finishInstall exec (m.next path) install).on (m.replay (m.opening path)) with
      ⟨stop | library, after⟩
    · rw [h] at run
      exact .raised exposes run
    · rw [h] at run
      obtain rfl := finishInstall_ok h
      exact .installed exposes run

theorem exists_installation (path : String) (m : Machine) :
    ∃ events, ((installLibrary exec path).on m).2 = m.replay events ∧
      Installation m path events ((installLibrary exec path).on m).1 := by
  have hon := on_installLibrary exec path m
  have hfailure {diagnostic : String} :
      ∀ event ∈ [Event.noted (.openFailure diagnostic)], event.isAside := by
    simp [Event.isAside]
  split at hon
  · rw [hon]
    exact ⟨[.consulted .load path], rfl, .unopened (fun _ he => absurd he List.not_mem_nil) rfl⟩
  · rw [hon, on_refuseLibrary]
    exact ⟨[.consulted .load path, .noted (.openFailure _)], rfl, .unopened hfailure rfl⟩
  · rw [hon, on_refuseLibrary]
    exact ⟨[.consulted .load path, .noted (.openFailure _)], rfl, .unopened hfailure rfl⟩
  · rename_i entryPoint install himage
    split at hon
    · rename_i hentry
      have exposes : m.exposes path := by
        simp [Machine.exposes, himage, hentry]
      rw [hon, ← Machine.opening_of_exposes exposes]
      exact installation_finishInstall hexec exposes install
    · rename_i hentry
      have hides : m.exposes path = false := by
        simp [Machine.exposes, himage, hentry]
      rw [hon, ← Machine.opening_of_hides hides]
      exact ⟨_, rfl, .rejected hides rfl⟩

theorem orderly_loadLibrary (path : String) : (loadLibrary exec path).Orderly := by
  intro m
  obtain ⟨events, hafter, hinstall⟩ := exists_installation hexec path m
  have nobody : ∀ s ∈ (none : Option Symbol), m.registry.find? s = none := by
    intro s hs
    cases hs
  unfold Follows loadLibrary
  rcases h : (installLibrary exec path).on m with ⟨stop | library, after⟩
  · rw [h] at hafter hinstall
    rw [on_bind_error h]
    exact ⟨events, hafter, hinstall.conduct_error nobody⟩
  · rw [h] at hafter hinstall
    rw [on_bind_ok h]
    obtain rfl : after = m.replay events := hafter
    refine ⟨events ++ [.handed library], ?_, hinstall.conduct_ok nobody ?_⟩
    · rw [Machine.replay_append]
      rfl
    · rintro rfl
      exact .handed

end Installing

end ModuleLoader
