import ModuleLoader.Proofs.Evaluation
import ModuleLoader.Proofs.Loading

/-!
# Actions that come to their end

Two ways of running programs, say to one depth of nesting and to another, make two actions out of
one. They complete in a region of states if from all of its states they do the same, do not run out
of depth and stay in the region.

* `Action.Ends` : an action that runs no program never runs out of depth;
* `Closed` : no event that may happen leads out of the region;
* `Machine.Serves` : the states of one loader in one system, which is a region;
* `Action.CompletesFrom`, `Action.Completes` : two actions complete, from one state or from all;
* `completesFrom_loadScript`, `completesFrom_loadCandidate_script`,
  `completesFrom_loadCandidate_library` : a load completes if what it runs does, and a library that
  runs no script always does;
* `completes_requireSymbol`, `completes_require`, `completes_requireOrFail` : so does a require.
-/

namespace ModuleLoader

open ModuleLoader.Action

/-! ## Actions that run no program -/

namespace Action
variable {α β : Type}

/-- The action never runs out of depth. -/
def Ends (a : Action α) : Prop := ∀ m, (a.on m).1 ≠ .error .exhausted

theorem ends_pure (x : α) : (pure x : Action α).Ends := fun _ h => by cases h

theorem ends_get : (get : Action Machine).Ends := fun _ h => by cases h

theorem ends_fail (fault : Fault) : (fail fault : Action α).Ends := fun _ h => by cases h

theorem ends_record (event : Event) : (record event).Ends := fun _ h => by cases h

theorem Ends.bind {a : Action α} {f : α → Action β} (ha : a.Ends) (hf : ∀ x, (f x).Ends) :
    (a >>= f).Ends := by
  intro m
  rcases h : a.on m with ⟨stop | x, after⟩
  · have hstop := ha m
    rw [h] at hstop
    rw [on_bind_error h]
    exact fun hx => hstop (congrArg Except.error (Except.error.inj hx))
  · rw [on_bind_ok h]
    exact hf x after

end Action

theorem ends_stringOf (value : Value) : (stringOf value).Ends := by
  cases value with
  | string text => exact ends_pure text
  | _ => exact ends_fail _

theorem ends_forM_note (notes : List Note) : (notes.forM note : Action Unit).Ends := by
  induction notes with
  | nil => exact ends_pure ()
  | cons n rest ih => exact (ends_record _).bind (fun _ => ih)

theorem ends_expandPath (path : String) : (expandPath path).Ends := by
  refine ends_get.bind (fun m => ?_)
  split
  · exact ends_pure _
  · exact ends_fail _
  · exact (ends_forM_note _).bind (fun _ => ends_pure none)

theorem ends_fileExists (path : String) : (fileExists path).Ends :=
  (ends_record _).bind (fun _ => ends_get.bind (fun _ => ends_pure _))

theorem ends_candidates (name : String) : (candidates name).Ends := by
  intro m h
  rw [on_candidates] at h
  cases h

theorem ends_readProgram (file : String) (source : List Char) : (readProgram file source).Ends := by
  unfold readProgram
  refine ends_get.bind (fun m => ?_)
  split
  · exact ends_pure _
  · split
    · exact (ends_record _).bind (fun _ => ends_fail _)
    · exact ends_fail _

theorem ends_compileFile (path : String) : (compileFile path).Ends := by
  refine Ends.bind ((ends_record _).bind (fun _ => ends_get.bind (fun m => ?_))) (fun source => ?_)
  · split
    · exact ends_pure _
    · exact ends_fail _
    · exact ends_fail _
  · exact (ends_readProgram path source).bind (fun _ => ends_pure _)

theorem ends_lookUp (name : String) (location : Script.Location) : (lookUp name location).Ends := by
  refine ends_get.bind (fun m => ?_)
  split
  · exact ends_pure _
  · exact ends_fail _

/-! ## Regions -/

/-- No event that may happen leads out of the region. -/
def Closed (R : Machine → Prop) : Prop := ∀ m event, R m → m.Allows event → R (m.record event)

theorem Closed.replay {R : Machine → Prop} (hR : Closed R) {m : Machine} {events : List Event}
    (hm : R m) (h : m.AllowsAll events) : R (m.replay events) := by
  induction events generalizing m with
  | nil => exact hm
  | cons event events ih => exact ih (hR m event hm h.1) h.2

theorem Closed.follows {R : Machine → Prop} (hR : Closed R) {α : Type} {a : Action α} {m : Machine}
    (hm : R m) (h : a.Follows m) : R (a.on m).2 := by
  obtain ⟨events, hafter, hc⟩ := h
  rw [hafter]
  exact hR.replay hm hc.course.allowsAll

/-- The state of a loader with this configuration in this system. -/
structure Machine.Serves (configuration : Configuration) (system : System) (m : Machine) :
    Prop where
  searchPath : ∀ directories ∈ m.searchPath, directories = configuration.searchPath
  configuration : m.configuration = configuration
  system : m.system = system

namespace Machine.Serves
variable {configuration : Configuration} {system : System} {m : Machine}

theorem files (h : m.Serves configuration system) (name : String) :
    m.files name = configuration.candidates name := by
  unfold Machine.files
  rw [h.configuration]
  cases hpath : m.searchPath with
  | none => rfl
  | some directories =>
      rw [Option.getD_some, h.searchPath directories hpath]
      rfl

end Machine.Serves

theorem closed_serves (configuration : Configuration) (system : System) :
    Closed (Machine.Serves configuration system) := by
  intro m event h hallows
  refine ⟨?_, ?_, ?_⟩
  · have hone : m.AllowsAll [event] := ⟨hallows, trivial⟩
    have hpath := hone.searchPath
    rw [h.configuration] at hpath
    exact hpath h.searchPath
  · rw [Machine.configuration_record, h.configuration]
  · rw [Machine.system_record, h.system]

namespace Action
variable {α β : Type} {R : Machine → Prop} {m : Machine}

/-- From this state the two actions do the same, do not run out of depth and stay in the region. -/
structure CompletesFrom (R : Machine → Prop) (a b : Action α) (m : Machine) : Prop where
  same : a.on m = b.on m
  ends : (a.on m).1 ≠ .error .exhausted
  stays : R (a.on m).2

def Completes (R : Machine → Prop) (a b : Action α) : Prop := ∀ m, R m → CompletesFrom R a b m

theorem CompletesFrom.mono {S : Machine → Prop} (hRS : ∀ n, R n → S n) {a b : Action α}
    (h : CompletesFrom R a b m) : CompletesFrom S a b m :=
  ⟨h.same, h.ends, hRS _ h.stays⟩

theorem CompletesFrom.after {a b a' b' : Action α} {n : Machine} (ha : a.on m = a'.on n)
    (hb : b.on m = b'.on n) (h : CompletesFrom R a' b' n) : CompletesFrom R a b m := by
  refine ⟨?_, ?_, ?_⟩
  · rw [ha, hb]
    exact h.same
  · rw [ha]
    exact h.ends
  · rw [ha]
    exact h.stays

theorem CompletesFrom.bind {a b : Action α} {f g : α → Action β} (h : CompletesFrom R a b m)
    (hf : ∀ x after, a.on m = (.ok x, after) → R after → CompletesFrom R (f x) (g x) after) :
    CompletesFrom R (a >>= f) (b >>= g) m := by
  obtain ⟨hsame, hends, hstays⟩ := h
  rcases ha : a.on m with ⟨stop | x, after⟩
  · rw [ha] at hsame hends hstays
    refine ⟨?_, ?_, ?_⟩
    · rw [on_bind_error ha, on_bind_error hsame.symm]
    · rw [on_bind_error ha]
      exact fun h => hends (congrArg Except.error (Except.error.inj h))
    · rw [on_bind_error ha]
      exact hstays
  · rw [ha] at hsame hstays
    exact (hf x after ha hstays).after (on_bind_ok ha f) (on_bind_ok hsame.symm g)

theorem Completes.bind {a b : Action α} {f g : α → Action β} (h : Completes R a b)
    (hf : ∀ x, Completes R (f x) (g x)) : Completes R (a >>= f) (b >>= g) :=
  fun m hm => (h m hm).bind (fun x after _ hafter => hf x after hafter)

theorem Completes.of_orderly (hR : Closed R) {a : Action α} (ha : a.Orderly) (hends : a.Ends) :
    Completes R a a :=
  fun m hm => ⟨rfl, hends m, hR.follows hm (ha m)⟩

theorem completes_pure (x : α) : Completes R (pure x) (pure x) :=
  fun _ hm => ⟨rfl, ends_pure x _, hm⟩

theorem completes_get : Completes R (get : Action Machine) get :=
  fun _ hm => ⟨rfl, ends_get _, hm⟩

theorem completes_throw {stop : Stop} (h : stop ≠ .exhausted) :
    Completes R (throw stop : Action α) (throw stop) :=
  fun _ hm => ⟨rfl, fun heq => h (Except.error.inj heq), hm⟩

theorem completes_fail (fault : Fault) : Completes R (fail fault : Action α) (fail fault) :=
  completes_throw (fun h => by cases h)

theorem completes_record (hR : Closed R) {event : Event} (h : event.isAside) :
    Completes R (record event) (record event) :=
  .of_orderly hR (orderly_record h) (ends_record event)

theorem Completes.map {a b : Action α} (f : α → β) (h : Completes R a b) :
    Completes R (f <$> a) (f <$> b) := by
  rw [map_eq_pure_bind, map_eq_pure_bind]
  exact h.bind (fun x => completes_pure (f x))

theorem CompletesFrom.map {a b : Action α} (f : α → β) (h : CompletesFrom R a b m) :
    CompletesFrom R (f <$> a) (f <$> b) m := by
  rw [map_eq_pure_bind, map_eq_pure_bind]
  exact h.bind (fun x after _ hafter => completes_pure (f x) after hafter)

end Action

/-! ## Loads -/

section Loading
variable {R : Machine → Prop} (hR : Closed R) {exec exec' : Execute}

include hR

theorem completesFrom_loadScript {path : String} {m : Machine} (hm : R m)
    (hprogram : ∀ text program, m.system.readText path = .ok text →
      Script.parse m.system.names path text = .ok program →
        Completes R (exec program) (exec' program)) :
    CompletesFrom R (loadScript exec path) (loadScript exec' path) m := by
  have hcompile := Completes.of_orderly hR (orderly_compileFile path) (ends_compileFile path) m hm
  refine hcompile.bind (fun compiled after hok hafter => ?_)
  obtain ⟨text, htext, hparse⟩ := compileFile_ok hok
  have hnote : Completes R (note (.executing compiled.path)) (note (.executing compiled.path)) :=
    completes_record hR rfl
  exact hnote.bind (fun _ => hprogram text _ htext hparse) after hafter

omit hR in
theorem completesFrom_loadCandidate_script {s : Symbol} {path : String} {m : Machine}
    (new : m.registry.find? s = none)
    (hload : CompletesFrom R (loadScript exec path) (loadScript exec' path)
      (m.replay (scriptOpening s path))) :
    CompletesFrom R (loadCandidate exec s ⟨path, .scriptSource⟩)
      (loadCandidate exec' s ⟨path, .scriptSource⟩) m :=
  (hload.map _).after (on_loadCandidate_script exec path new)
    (on_loadCandidate_script exec' path new)

omit hR in
variable (exec exec') in
theorem installLibrary_bare {path : String} {m : Machine}
    (hbare : ∀ entryPoint install, m.system.openImage path = .ok (.opens entryPoint install) →
      install = none) :
    (installLibrary exec path).on m = (installLibrary exec' path).on m ∧
      ((installLibrary exec path).on m).1 ≠ .error .exhausted := by
  rw [on_installLibrary, on_installLibrary]
  cases himage : m.system.openImage path with
  | error obstacle => cases obstacle <;> exact ⟨rfl, fun h => by cases h⟩
  | ok image =>
      cases image with
      | refuses diagnostic => exact ⟨rfl, fun h => by cases h⟩
      | opens entryPoint install =>
          obtain rfl := hbare entryPoint install himage
          refine ⟨rfl, ?_⟩
          dsimp only
          split
          · exact fun h => by cases h
          · exact fun h => by cases h

theorem completesFrom_loadCandidate_library (hexec : ∀ program, (exec program).Orderly)
    {s : Symbol} {path : String} {m : Machine} (hm : R m) (new : m.registry.find? s = none)
    (hbare : ∀ entryPoint install, m.system.openImage path = .ok (.opens entryPoint install) →
      install = none) :
    CompletesFrom R (loadCandidate exec s ⟨path, .nativeLibrary⟩)
      (loadCandidate exec' s ⟨path, .nativeLibrary⟩) m := by
  have hchosen : ∀ entryPoint install,
      (m.record (.chosen s ⟨path, .nativeLibrary⟩)).system.openImage path =
        .ok (.opens entryPoint install) → install = none := by
    rwa [Machine.system_record]
  have hinstall := installLibrary_bare exec exec' hchosen
  refine ⟨?_, ?_, hR.follows hm (follows_loadCandidate hexec _ new)⟩
  · rw [on_loadCandidate_library, on_loadCandidate_library, hinstall.1]
  · obtain ⟨-, hends⟩ := hinstall
    rw [on_loadCandidate_library]
    rcases h : (installLibrary exec path).on (m.record (.chosen s ⟨path, .nativeLibrary⟩)) with
      ⟨stop | library, after⟩
    · rw [h] at hends
      exact fun hx => hends (congrArg Except.error (Except.error.inj hx))
    · dsimp only
      split
      · exact fun hx => by cases hx
      · exact fun hx => by cases hx

/-! ## Requires -/

variable (hexec : ∀ program, (exec program).Orderly) {s : Symbol} {candidates : List Candidate}
  (hfiles : ∀ m, R m → m.files s.name = candidates)
  (hload : ∀ c ∈ candidates, ∀ m, R m → m.registry.find? s = none →
    CompletesFrom R (loadCandidate exec s c) (loadCandidate exec' s c) m)

include hexec hfiles hload

/-- A require completes if the load of each candidate does. -/
theorem completes_requireSymbol : Completes R (requireSymbol exec s) (requireSymbol exec' s) := by
  intro m hm
  have hstays := hR.follows hm (orderly_requireSymbol hexec s m)
  cases hfind : m.registry.find? s with
  | some r =>
      refine ⟨?_, ?_, hstays⟩
      · rw [on_requireSymbol_known exec hfind, on_requireSymbol_known exec' hfind]
      · rw [on_requireSymbol_known exec hfind]
        exact fun h => by cases h
  | none =>
      cases hfirst : (m.files s.name).find? (fun c => m.system.isFile c.path) with
      | none =>
          have hnone : ∀ c ∈ m.files s.name, ¬ m.system.isFile c.path :=
            fun c hc => by simpa using List.find?_eq_none.1 hfirst c hc
          refine ⟨?_, ?_, hstays⟩
          · rw [on_requireSymbol_missing exec hfind hnone,
              on_requireSymbol_missing exec' hfind hnone]
          · rw [on_requireSymbol_missing exec hfind hnone]
            exact fun h => by cases h
      | some c =>
          have hsearch : m.AllowsAll (m.settling ++ probes (tried m.system (m.files s.name))) :=
            (conduct_search _ _).course.allowsAll
          have hc : c ∈ candidates := hfiles m hm ▸ List.mem_of_find?_eq_some hfirst
          refine .after (on_requireSymbol_found exec hfind hfirst)
            (on_requireSymbol_found exec' hfind hfirst) (CompletesFrom.map _ ?_)
          exact hload c hc _ (hR.replay hm hsearch) ((congrArg (·.find? s)
            (registry_search m _)).trans hfind)

end Loading

section Requiring
variable {R : Machine → Prop} {exec exec' : Execute} {value : Value}
  (hrequire : ∀ s, value.symbol? = some s →
    Completes R (requireSymbol exec s) (requireSymbol exec' s))

include hrequire

theorem completes_require : Completes R (require exec value) (require exec' value) := by
  cases hs : value.symbol? with
  | some s =>
      rw [require_eq exec hs, require_eq exec' hs]
      exact hrequire s hs
  | none =>
      intro m hm
      have hrefused : moduleSymbol value = fail (.argument value .symbolOrString) := by
        cases value with
        | symbol s => cases hs
        | string text => cases hs
        | _ => rfl
      unfold require
      rw [hrefused]
      exact (completes_fail _ m hm).bind (fun _ _ h => by cases h)

theorem completes_requireOrFail (hR : Closed R) :
    Completes R (requireOrFail exec value) (requireOrFail exec' value) := by
  refine (completes_require hrequire).bind (fun requirement => ?_)
  cases requirement with
  | notFound s =>
      exact (Completes.of_orderly hR (orderly_candidates s.name) (ends_candidates s.name)).bind
        (fun _ => completes_fail _)
  | alreadyLoaded r => exact completes_pure _
  | resolved r => exact completes_pure _

end Requiring

end ModuleLoader
