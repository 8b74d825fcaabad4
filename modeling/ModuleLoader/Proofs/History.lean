import ModuleLoader.Proofs.Loading
import ModuleLoader.Proofs.Turns

/-!
# The registry through a run

A run only ever adds records, at the end and under new symbols, and a symbol with a record is
answered from the registry alone.

* `on_require_known` : a require of a symbol with a record changes nothing;
* `registry_grows` : the records at one moment come first among those at any later one, and each
  of them answers the requires of its symbol;
* `countP_handsOver_runTurns` : scripts are handed over as often as their symbols get records;
* `handsOver_once` : a script is handed over once, whatever comes of it.
-/

namespace ModuleLoader

open ModuleLoader.Action

theorem on_require_known (exec : Execute) {x : Machine} {value : Value} {s : Symbol}
    {r : LoadedModule} (hs : value.symbol? = some s) (h : x.registry.find? s = some r) :
    (require exec value).on x = (.ok (.alreadyLoaded r),
      { x with trace := .noted (.alreadyLoaded s.name r.path) :: x.trace }) := by
  rw [require_eq exec hs]
  exact on_requireSymbol_known exec h

/-- The records of a run at one moment are a prefix of those at every later one, no two have equal
symbols, and a require of an equal symbol is answered with the record and changes nothing. -/
theorem registry_grows (settings : Settings) (m : Machine) (configuration : Configuration)
    (turns : List Turn) :
    let states := moments settings (m.restart configuration) turns
    states.Pairwise (fun x y => x.registry.modules <+: y.registry.modules) ∧
      ∀ x ∈ states, x.registry.Distinct ∧
        ∀ r ∈ x.registry.modules, ∀ (exec : Execute) (value : Value) (s : Symbol),
          value.symbol? = some s → r.symbol.same s →
            (require exec value).on x = (.ok (.alreadyLoaded r),
              { x with trace := .noted (.alreadyLoaded s.name r.path) :: x.trace }) := by
  refine ⟨(pairwise_moments _ _ _).imp Machine.Leads.modules_prefix, fun x hx => ?_⟩
  have hdistinct : x.registry.Distinct := (leads_of_mem_moments hx).distinct Registry.distinct_empty
  refine ⟨hdistinct, fun r hr exec value s hs hsame => ?_⟩
  exact on_require_known exec hs (hdistinct.find?_eq hr hsame)

/-- A loader in whose system there is one script, which fails. -/
def faulty : Machine :=
  let bare := System.bare (some "/work")
  let script := Text.Utf8.encode "Missing()".toList
  (Machine.blank (bare.write "m/b.lps" (.file ⟨some script, .opens none none⟩))).restart
    ⟨some [.named "m"], Extension.standard, "/opt/app/bin", [], standardEntryPoint⟩

/-- The script is required, and then again under another spelling. -/
def faultyTurns : List Turn :=
  [⟨nestingLimit, .require (.string "b"), rfl⟩, ⟨nestingLimit, .require (.string "B"), rfl⟩]

/-- Some moment of the run has a record, and answers from it. -/
theorem registry_grows_faulty : ∃ x ∈ moments {} faulty faultyTurns,
    ∃ r ∈ x.registry.modules, (require (execute nestingLimit) (.string "B")).on x =
      (.ok (.alreadyLoaded r),
        { x with trace := .noted (.alreadyLoaded "B" r.path) :: x.trace }) := by
  have hrecord : (moments {} faulty faultyTurns).any (fun x =>
      x.registry.modules.any (fun r => r.symbol.same ⟨"B"⟩)) := by decide +kernel
  obtain ⟨x, hx, hrecord⟩ := List.any_eq_true.1 hrecord
  obtain ⟨r, hr, hsame⟩ := List.any_eq_true.1 hrecord
  exact ⟨x, hx, r, hr, ((registry_grows {} _ _ faultyTurns).2 x hx).2 r hr _ _ _ rfl hsame⟩

/-! ## Scripts -/

theorem allowsAll_runTurns (settings : Settings) (m : Machine) (turns : List Turn) :
    m.AllowsAll ((runTurns settings m turns).flatMap Outcome.events) := by
  induction turns generalizing m with
  | nil => trivial
  | cons t rest ih =>
      obtain ⟨hafter, hc⟩ := observe_course settings t m
      rw [runTurns_cons, List.flatMap_cons]
      exact Machine.allowsAll_append.2 ⟨hc.allowsAll, hafter.allowsAll (ih _)⟩

theorem countP_handsOver_runTurns (settings : Settings) (m : Machine) (turns : List Turn)
    (s : Symbol) :
    ((runTurns settings m turns).flatMap Outcome.events).countP (·.handsOver s) ≤
      ((runTurns settings m turns).flatMap Outcome.events).countP (·.records s) := by
  induction turns generalizing m with
  | nil => exact Nat.le_refl _
  | cons t rest ih =>
      obtain ⟨-, hc⟩ := observe_course settings t m
      rw [runTurns_cons, List.flatMap_cons, List.countP_append, List.countP_append]
      exact Nat.add_le_add (hc.countP_handsOver_le s) (ih _)

/-- A run hands over at most one script for equal symbols, and from then on every require of such a
symbol is answered with the record of that script and changes nothing, even where the script or a
module that it required failed. Handing a script over is one call of the loader of scripts, which
reads the file once and runs its program once. -/
theorem handsOver_once (settings : Settings) (m : Machine) (configuration : Configuration)
    (turns : List Turn) :
    let first := m.restart configuration
    (∀ s, ((runTurns settings first turns).flatMap Outcome.events).countP (·.handsOver s) ≤ 1) ∧
      (∀ x ∈ moments settings first turns, ∀ path name,
        .noted (.loadingScript path name) ∈ x.since first →
          ∀ (exec : Execute) (value : Value) (s : Symbol),
            value.symbol? = some s → s.same ⟨name⟩ →
              (require exec value).on x =
                (.ok (.alreadyLoaded ⟨⟨name⟩, .scriptSource, path, none⟩),
                  { x with trace := .noted (.alreadyLoaded s.name path) :: x.trace })) ∧
      ∀ exec, LoadsSingly exec := by
  refine ⟨fun s => ?_, fun x hx path name hover exec value s hs hsame => ?_, loadsSingly⟩
  · have hover := countP_handsOver_runTurns settings (m.restart configuration) turns s
    have hrecords := (allowsAll_runTurns settings (m.restart configuration) turns).countP_records s
    exact Nat.le_trans hover hrecords
  · obtain ⟨hallows, hagree⟩ := (leads_of_mem_moments hx).allowsAll_since
    have hfound := hallows.find?_of_loadingScript hover
    rw [← hagree.registry, ← Registry.find?_congr _ hsame] at hfound
    exact on_require_known exec hs hfound

/-- The script that failed is not handed over again. -/
theorem handsOver_once_faulty : ∃ x ∈ moments {} faulty faultyTurns, ∃ path name,
    .noted (.loadingScript path name) ∈ x.since faulty ∧
      (require (execute nestingLimit) (.string "B")).on x =
        (.ok (.alreadyLoaded ⟨⟨name⟩, .scriptSource, path, none⟩),
          { x with trace := .noted (.alreadyLoaded "B" path) :: x.trace }) := by
  have hover : (moments {} faulty faultyTurns).any (fun x =>
      (x.since faulty).any (·.handsOver ⟨"B"⟩)) := by decide +kernel
  obtain ⟨x, hx, hover⟩ := List.any_eq_true.1 hover
  obtain ⟨event, he, hover⟩ := List.any_eq_true.1 hover
  obtain ⟨path, name, rfl⟩ := exists_of_handsOver hover
  exact ⟨x, hx, path, name, he,
    (handsOver_once {} _ _ faultyTurns).2.1 x hx path name he _ _ _ rfl
      (Symbol.same_symm hover)⟩

end ModuleLoader
