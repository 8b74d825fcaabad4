import Mathlib.Data.List.Forall2
import ModuleLoader.Proofs.Search

/-!
# States that differ in the spelling of names

Two states are alike when everything in them is the same but for the letter case in which globals
were first bound, and in which the trace tells of bindings. What scripts do does not see the
difference.

* `Bindings.Alike` : the same values under equal symbols (`Alike.get?`, `Alike.set`);
* `Event.Alike`, `Stop.Alike` : up to the letter case of a name;
* `Machine.Alike` : alike states (`Alike.record`, `Alike.callable?`);
* `Action.Matches`, `Action.Uniform` : actions that do the same in alike states, and one that does
  so by itself (`Matches.bind`, `matches_get`);
* `uniform_loadScript`, `uniform_loadLibrary`, `uniform_require` : scripts and libraries are
  loaded uniformly, if what runs a program is uniform.
-/

namespace ModuleLoader

open ModuleLoader.Action

/-! ## Bindings -/

namespace Bindings
variable {α : Type} {b c : Bindings α} {s t : Symbol}

/-- The same values are bound to equal symbols, in the same order. -/
def Alike (b c : Bindings α) : Prop :=
  List.Forall₂ (fun x y => x.1.same y.1 ∧ x.2 = y.2) b.entries c.entries

theorem alike_refl (b : Bindings α) : b.Alike b :=
  List.forall₂_same.2 (fun x _ => ⟨x.1.same_refl, rfl⟩)

theorem get?_congr (b : Bindings α) (h : s.same t) : b.get? s = b.get? t := by
  have hkey : s.key = t.key := (Symbol.same_iff s t).1 h
  simp only [get?, Symbol.same, hkey]

theorem Alike.get? (h : b.Alike c) (s : Symbol) : b.get? s = c.get? s := by
  obtain ⟨entries⟩ := b
  obtain ⟨others⟩ := c
  unfold Alike at h
  unfold Bindings.get?
  dsimp only at h ⊢
  induction h with
  | nil => rfl
  | @cons x y xs ys hxy _ ih =>
    obtain ⟨bound, value⟩ := x
    obtain ⟨other, same⟩ := y
    obtain ⟨hkey, rfl⟩ := hxy
    have hfound : bound.same s = other.same s := by
      rw [Symbol.same, (Symbol.same_iff bound other).1 hkey, Symbol.same]
    cases hs : other.same s with
    | true => simp only [List.find?_cons, hfound, hs, Option.map_some]
    | false => simpa only [List.find?_cons, hfound, hs] using ih

theorem Alike.set (h : b.Alike c) (hst : s.same t) (value : α) :
    (b.set s value).Alike (c.set t value) := by
  obtain ⟨entries⟩ := b
  obtain ⟨others⟩ := c
  unfold Alike Bindings.set at *
  dsimp only at h ⊢
  induction h with
  | nil => exact .cons ⟨hst, rfl⟩ .nil
  | @cons x y xs ys hxy hrest ih =>
    obtain ⟨bound, old⟩ := x
    obtain ⟨other, same⟩ := y
    have hfound : bound.same s = other.same t := by
      rw [Symbol.same, (Symbol.same_iff bound other).1 hxy.1, (Symbol.same_iff s t).1 hst,
        Symbol.same]
    rw [setIn, setIn, hfound]
    split
    · exact .cons ⟨hxy.1, rfl⟩ hrest
    · exact .cons hxy ih

theorem Alike.names (h : b.Alike c) : List.Forall₂ (fun s t => s.same t) b.names c.names :=
  List.forall₂_map_left_iff.2 (List.forall₂_map_right_iff.2 (h.imp (fun _ _ hxy => hxy.1)))

end Bindings

/-! ## States -/

/-- The events are the same, or bindings of one value to equal symbols. -/
inductive Event.Alike : Event → Event → Prop
  | refl (event : Event) : Alike event event
  | bound {s t : Symbol} (same : s.same t) (value : Value) : Alike (.bound s value) (.bound t value)

def SameName (name other : String) : Prop := (⟨name⟩ : Symbol).same ⟨other⟩

instance (name other : String) : Decidable (SameName name other) :=
  inferInstanceAs (Decidable (_ = true))

/-- The same is wrong with a construct, up to the letter case of the name that it is about. -/
inductive EvaluationFlaw.Alike : EvaluationFlaw → EvaluationFlaw → Prop
  | undefinedVariable {name other : String} (same : SameName name other) :
    Alike (.undefinedVariable name) (.undefinedVariable other)
  | undefinedFunction {name other : String} (same : SameName name other) :
    Alike (.undefinedFunction name) (.undefinedFunction other)
  | badCall {name other : String} (same : SameName name other) (flaw : ArityFlaw) :
    Alike (.badCall name flaw) (.badCall other flaw)

/-- The reasons are the same, or constructs at one place fail alike. -/
inductive Stop.Alike : Stop → Stop → Prop
  | refl (stop : Stop) : Alike stop stop
  | evaluation {flaw other : EvaluationFlaw} (alike : flaw.Alike other)
    (location : Script.Location) :
    Alike (.fault (.evaluation flaw location)) (.fault (.evaluation other location))

namespace Machine

/-- The states differ at most in the spelling of globals. -/
structure Alike (m n : Machine) : Prop where
  system : m.system = n.system
  configuration : m.configuration = n.configuration
  builtins : m.builtins = n.builtins
  globals : m.globals.Alike n.globals
  registry : m.registry = n.registry
  searchPath : m.searchPath = n.searchPath
  trace : List.Forall₂ Event.Alike m.trace n.trace

theorem alike_refl (m : Machine) : m.Alike m where
  system := rfl
  configuration := rfl
  builtins := rfl
  globals := m.globals.alike_refl
  registry := rfl
  searchPath := rfl
  trace := List.forall₂_same.2 (fun event _ => .refl event)

namespace Alike
variable {m n : Machine}

theorem record (h : m.Alike n) {event other : Event} (he : event.Alike other) :
    (m.record event).Alike (n.record other) := by
  obtain ⟨hsystem, hconfiguration, hbuiltins, hglobals, hregistry, hsearchPath, htrace⟩ := h
  have htold : List.Forall₂ Event.Alike (event :: m.trace) (other :: n.trace) := .cons he htrace
  cases he with
  | bound same value =>
    exact ⟨hsystem, hconfiguration, hbuiltins, hglobals.set same value, hregistry, hsearchPath,
      htold⟩
  | refl =>
    cases event with
    | bound s value =>
      exact ⟨hsystem, hconfiguration, hbuiltins, hglobals.set s.same_refl value, hregistry,
        hsearchPath, htold⟩
    | settled directories =>
      exact ⟨hsystem, hconfiguration, hbuiltins, hglobals, hregistry, rfl, htold⟩
    | registered r =>
      have hinsert : (m.registry.insert? r).getD m.registry =
          (n.registry.insert? r).getD n.registry := by rw [hregistry]
      exact ⟨hsystem, hconfiguration, hbuiltins, hglobals, hinsert, hsearchPath, htold⟩
    | _ => exact ⟨hsystem, hconfiguration, hbuiltins, hglobals, hregistry, hsearchPath, htold⟩

theorem openedCount (h : m.Alike n) : m.openedCount = n.openedCount := by
  have htrace := h.trace
  unfold Machine.openedCount
  generalize m.trace = told, n.trace = toldToo at htrace ⊢
  induction htrace with
  | nil => rfl
  | @cons event other events others he _ ih =>
    cases he with
    | refl => rw [List.countP_cons, List.countP_cons, ih]
    | bound same value => rw [List.countP_cons, List.countP_cons, ih]

/-- A call of a name runs the same, whatever the letter case of the name. -/
theorem callable? (h : m.Alike n) {name other : String} (hname : SameName name other) :
    m.callable? name = n.callable? other := by
  unfold Machine.callable?
  rw [h.builtins, h.globals.get? ⟨name⟩, Bindings.get?_congr n.builtins hname,
    Bindings.get?_congr n.globals hname]

end Alike

end Machine

/-! ## Actions in alike states -/

namespace Action
variable {α β : Type}

/-- The results are equal, or both are none for alike reasons. -/
inductive ResultsAlike : Except Stop α → Except Stop α → Prop
  | ok (x : α) : ResultsAlike (.ok x) (.ok x)
  | error {stop other : Stop} (alike : stop.Alike other) : ResultsAlike (.error stop) (.error other)

/-- From alike states the actions come to alike results and states. -/
def Matches (a b : Action α) : Prop :=
  ∀ m n : Machine, m.Alike n → ResultsAlike (a.on m).1 (b.on n).1 ∧ (a.on m).2.Alike (b.on n).2

/-- The action does the same in alike states. -/
abbrev Uniform (a : Action α) : Prop := Matches a a

theorem uniform_pure (x : α) : (pure x : Action α).Uniform := fun _ _ h => ⟨.ok x, h⟩

theorem uniform_throw (stop : Stop) : (throw stop : Action α).Uniform :=
  fun _ _ h => ⟨.error (.refl stop), h⟩

theorem uniform_fail (fault : Fault) : (fail fault : Action α).Uniform :=
  uniform_throw (.fault fault)

theorem matches_fail {flaw other : EvaluationFlaw} (h : flaw.Alike other)
    (location : Script.Location) :
    Matches (fail (.evaluation flaw location) : Action α) (fail (.evaluation other location)) :=
  fun _ _ hm => ⟨.error (.evaluation h location), hm⟩

theorem matches_record {event other : Event} (h : event.Alike other) :
    Matches (record event) (record other) :=
  fun _ _ hm => ⟨.ok (), hm.record h⟩

theorem uniform_record (event : Event) : (record event).Uniform := matches_record (.refl event)

theorem uniform_note (n : Note) : (note n).Uniform := uniform_record (.noted n)

theorem Matches.bind {a b : Action α} {f g : α → Action β} (ha : Matches a b)
    (hf : ∀ x, Matches (f x) (g x)) : Matches (a >>= f) (b >>= g) := by
  intro m n h
  obtain ⟨hresult, hstate⟩ := ha m n h
  rcases hm : a.on m with ⟨r, m'⟩
  rcases hn : b.on n with ⟨r', n'⟩
  rw [hm, hn] at hresult hstate
  cases hresult with
  | ok x =>
    rw [on_bind_ok hm, on_bind_ok hn]
    exact hf x m' n' hstate
  | error alike =>
    rw [on_bind_error hm, on_bind_error hn]
    exact ⟨.error alike, hstate⟩

theorem Matches.map {a b : Action α} (f : α → β) (h : Matches a b) :
    Matches (f <$> a) (f <$> b) := by
  rw [map_eq_pure_bind, map_eq_pure_bind]
  exact h.bind (fun x => uniform_pure (f x))

/-- What an action reads of alike states must not tell them apart. -/
theorem matches_get {f g : Machine → Action β}
    (h : ∀ m n : Machine, m.Alike n → Matches (f m) (g n)) : Matches (get >>= f) (get >>= g) := by
  intro m n hmn
  rw [on_get_bind, on_get_bind]
  exact h m n hmn m n hmn

end Action

/-! ## Paths and scripts -/

theorem uniform_stringOf (value : Value) : (stringOf value).Uniform := by
  cases value with
  | string text => exact uniform_pure text
  | _ => exact uniform_fail _

theorem uniform_forM_note (notes : List Note) : (notes.forM note : Action Unit).Uniform := by
  induction notes with
  | nil => exact uniform_pure ()
  | cons n rest ih => exact (uniform_note n).bind (fun _ => ih)

theorem uniform_expandPath (path : String) : (expandPath path).Uniform := by
  refine matches_get (fun m n h => ?_)
  rw [h.system]
  split
  · exact uniform_pure _
  · exact uniform_fail _
  · exact (uniform_forM_note _).bind (fun _ => uniform_pure none)

theorem uniform_fileExists (path : String) : (fileExists path).Uniform := by
  refine (uniform_record _).bind (fun _ => matches_get (fun m n h => ?_))
  rw [h.system]
  exact uniform_pure _

theorem uniform_readProgram (file : String) (source : List Char) :
    (readProgram file source).Uniform := by
  unfold readProgram
  refine matches_get (fun m n h => ?_)
  rw [h.system]
  split
  · exact uniform_pure _
  · split
    · exact (uniform_note _).bind (fun _ => uniform_fail _)
    · exact uniform_fail _

theorem uniform_readSource (path : String) : (readSource path).Uniform := by
  refine (uniform_record _).bind (fun _ => matches_get (fun m n h => ?_))
  rw [h.system]
  split
  · exact uniform_pure _
  · exact uniform_fail _
  · exact uniform_fail _

theorem uniform_compileFile (path : String) : (compileFile path).Uniform :=
  (uniform_readSource path).bind (fun source =>
    (uniform_readProgram path source).bind (fun _ => uniform_pure _))

section Loading
variable {exec : Execute} (hexec : ∀ program, (exec program).Uniform)

include hexec

theorem uniform_loadScript (path : String) : (loadScript exec path).Uniform :=
  (uniform_compileFile path).bind (fun compiled =>
    (uniform_note _).bind (fun _ => hexec compiled.program))

theorem uniform_runSource (file : String) (source : List Char) :
    (runSource exec file source).Uniform :=
  (uniform_readProgram file source).bind hexec

/-! ## Libraries -/

omit hexec in
theorem uniform_refuseLibrary {α : Type} (path diagnostic : String) :
    (refuseLibrary path diagnostic : Action α).Uniform :=
  (uniform_note _).bind (fun _ => uniform_fail _)

omit hexec in
theorem uniform_openLibrary (path : String) : (openLibrary path).Uniform := by
  refine (uniform_record _).bind (fun _ => matches_get (fun m n h => ?_))
  rw [h.system, h.openedCount]
  split
  · exact uniform_fail _
  · exact uniform_refuseLibrary _ _
  · exact uniform_refuseLibrary _ _
  · exact (uniform_record _).bind (fun _ => uniform_pure _)

theorem uniform_callEntryPoint (library : Library) (install : Option String) :
    (callEntryPoint exec library install).Uniform := by
  refine (uniform_record _).bind (fun _ => ?_)
  cases install with
  | none => exact uniform_pure ()
  | some source => exact (uniform_runSource hexec _ _).map _

theorem uniform_installLibrary (path : String) : (installLibrary exec path).Uniform := by
  refine (uniform_openLibrary path).bind (fun opened => matches_get (fun m n h => ?_))
  rw [h.configuration]
  split
  · exact (uniform_callEntryPoint hexec _ _).bind (fun _ =>
      (uniform_note _).bind (fun _ => uniform_pure _))
  · exact (uniform_record _).bind (fun _ => uniform_fail _)

theorem uniform_loadLibrary (path : String) : (loadLibrary exec path).Uniform :=
  (uniform_installLibrary hexec path).bind (fun _ =>
    (uniform_record _).bind (fun _ => uniform_pure _))

/-! ## Requires -/

omit hexec in
theorem uniform_useSearchPath : useSearchPath.Uniform := by
  refine matches_get (fun m n h => ?_)
  rw [h.searchPath, h.configuration]
  split
  · exact uniform_pure _
  · exact (uniform_note _).bind (fun _ => (uniform_record _).bind (fun _ => uniform_pure _))

omit hexec in
theorem uniform_candidates (name : String) : (candidates name).Uniform := by
  refine uniform_useSearchPath.bind (fun directories => matches_get (fun m n h => ?_))
  rw [h.configuration]
  exact uniform_pure _

omit hexec in
theorem uniform_firstExisting (candidates : List Candidate) :
    (firstExisting candidates).Uniform := by
  induction candidates with
  | nil => exact uniform_pure none
  | cons c rest ih =>
    refine (uniform_note _).bind (fun _ => (uniform_fileExists c.path).bind (fun found => ?_))
    cases found with
    | true => exact uniform_pure (some c)
    | false => exact ih

omit hexec in
theorem uniform_register (r : LoadedModule) : (register r).Uniform := by
  refine matches_get (fun m n h => ?_)
  rw [h.registry]
  split
  · exact uniform_record _
  · exact uniform_fail _

theorem uniform_loadCandidate (s : Symbol) (c : Candidate) :
    (loadCandidate exec s c).Uniform := by
  obtain ⟨path, kind⟩ := c
  refine (uniform_record _).bind (fun _ => ?_)
  cases kind with
  | nativeLibrary =>
    exact (uniform_installLibrary hexec path).bind (fun library =>
      (uniform_record _).bind (fun _ => (uniform_register _).bind (fun _ => uniform_pure _)))
  | scriptSource =>
    exact (uniform_register _).bind (fun _ => (uniform_note _).bind (fun _ =>
      ((uniform_loadScript hexec path).map _).bind (fun _ => uniform_pure _)))

theorem uniform_requireSymbol (s : Symbol) : (requireSymbol exec s).Uniform := by
  refine matches_get (fun m n h => ?_)
  rw [h.registry]
  split
  · exact (uniform_note _).bind (fun _ => uniform_pure _)
  · refine (uniform_candidates s.name).bind (fun files =>
      (uniform_firstExisting files).bind (fun found => ?_))
    cases found with
    | none => exact (uniform_note _).bind (fun _ => uniform_pure _)
    | some c => exact (uniform_loadCandidate hexec s c).bind (fun _ => uniform_pure _)

theorem uniform_require (value : Value) : (require exec value).Uniform := by
  have hsymbol : (moduleSymbol value).Uniform := by
    cases value with
    | symbol s => exact uniform_pure s
    | string text => exact uniform_pure (⟨text⟩ : Symbol)
    | _ => exact uniform_fail _
  exact hsymbol.bind (uniform_requireSymbol hexec)

theorem uniform_requireOrFail (value : Value) : (requireOrFail exec value).Uniform := by
  refine (uniform_require hexec value).bind (fun requirement => ?_)
  cases requirement with
  | notFound s => exact (uniform_candidates s.name).bind (fun _ => uniform_fail _)
  | alreadyLoaded r => exact uniform_pure _
  | resolved r => exact uniform_pure _

end Loading

end ModuleLoader
