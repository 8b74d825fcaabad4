import ModuleLoader.Proofs.DepthFirst
import ModuleLoader.Proofs.Tame
import ModuleLoader.Proofs.Turns

/-!
# Module trees load depth first

Modules that are laid out as scripts, each of which requires what it depends on and then prints its
name, are loaded in the order of a depth-first traversal, whatever circles they form.

* `ModuleGraph`, `ModuleGraph.LaidOut` : modules with what they depend on, and their scripts;
* `Machine.printed` : what was printed up to a state;
* `Tracks` : a state in which the records are those of the nodes that a traversal entered, and in
  which the names of those that it left were printed;
* `Action.Returns` : an action that comes back with a value and a state of some kind;
* `Visits`, `visits`, `returns_runStatements` : a require visits its module, and a script what it
  depends on;
* `modules_depthFirst` : the run of requires of some roots is a traversal from these roots.
-/

namespace ModuleLoader

open ModuleLoader.Action
open Script (Expression Statement Literal Program)

/-! ## Module graphs -/

/-- The function that a statement calls and the module that its only argument names, if the
argument is written out. -/
def Script.Statement.call? : Statement Literal → Option (Builtin × Symbol)
  | .evaluate (.call name [argument] _) =>
    (Builtin.ofName? name).bind (fun function => argument.moduleName?.map (function, ·))
  | _ => none

/-- Modules, and what each of them depends on, in order. -/
structure ModuleGraph (ι : Type) where
  name : ι → String
  deps : ι → List ι

namespace ModuleGraph
variable {ι : Type} (g : ModuleGraph ι)

def symbol (n : ι) : Symbol := ⟨g.name n⟩

def line (n : ι) : String := g.name n ++ "\n"

/-- The program requires what the module depends on, in order, and prints the name of the
module. -/
def IsSource (n : ι) (program : Program) : Prop :=
  program.statements.map Statement.call? =
    (g.deps n).map (fun d => some (.require, g.symbol d)) ++ [some (.print, g.symbol n)]

instance (n : ι) (program : Program) : Decidable (g.IsSource n program) :=
  inferInstanceAs (Decidable (_ = _))

/-- No two modules have equal symbols, and the first candidate of each that exists is its script. -/
structure LaidOut (configuration : Configuration) (system : System) : Prop where
  distinct : ∀ i j, (g.symbol i).same (g.symbol j) → i = j
  script : ∀ n, ∃ path text program,
    (configuration.candidates (g.name n)).find? (fun c => system.isFile c.path) =
      some ⟨path, .scriptSource⟩ ∧
    system.readText path = .ok text ∧ Script.parse system.names path text = .ok program ∧
      g.IsSource n program

end ModuleGraph

/-! ## What was printed -/

def printedTexts (events : List Event) : List String :=
  events.filterMap (fun event => match event with
    | .printed text => some text
    | _ => none)

theorem printedText_eq (events : List Event) :
    printedText events = String.join (printedTexts events) := rfl

theorem printedTexts_append (events others : List Event) :
    printedTexts (events ++ others) = printedTexts events ++ printedTexts others :=
  List.filterMap_append

theorem printedTexts_quiet {events : List Event} (h : ∀ event ∈ events, event.isQuiet) :
    printedTexts events = [] := by
  refine List.filterMap_eq_nil_iff.2 (fun event he => ?_)
  have hquiet := h event he
  cases event with
  | printed => cases hquiet
  | _ => rfl

def Machine.printed (m : Machine) : List String := printedTexts m.trace.reverse

theorem Machine.printed_replay (m : Machine) (events : List Event) :
    (m.replay events).printed = m.printed ++ printedTexts events := by
  unfold Machine.printed
  rw [trace_replay, List.reverse_append, List.reverse_reverse, printedTexts_append]

/-! ## States that a traversal leads to -/

/-- The loader has come as far as the traversal. -/
structure Tracks {ι : Type} (g : ModuleGraph ι) (configuration : Configuration) (system : System)
    (before : List String) (t : Traversal ι) (m : Machine) : Prop where
  serves : m.Serves configuration system
  builtins : m.builtins = Builtin.table
  records : m.registry.modules.map LoadedModule.symbol = t.entered.map g.symbol
  printed : m.printed = before ++ t.left.map g.line

namespace Tracks
variable {ι : Type} {g : ModuleGraph ι} {configuration : Configuration} {system : System}
  {before : List String} {t : Traversal ι} {m : Machine} {n : ι}

theorem exists_record (h : Tracks g configuration system before t m) (hn : n ∈ t.entered) :
    ∃ r, m.registry.find? (g.symbol n) = some r := by
  have hmem : g.symbol n ∈ m.registry.modules.map LoadedModule.symbol :=
    h.records ▸ List.mem_map_of_mem hn
  obtain ⟨r, hr, hsymbol⟩ := List.mem_map.1 hmem
  cases hfind : m.registry.find? (g.symbol n) with
  | some found => exact ⟨found, rfl⟩
  | none =>
      have hnone := (Registry.find?_eq_none_iff _ _).1 hfind r hr
      rw [hsymbol] at hnone
      exact absurd (Symbol.same_refl _) hnone

theorem find?_eq_none (h : Tracks g configuration system before t m)
    (hdistinct : ∀ i j, (g.symbol i).same (g.symbol j) → i = j) (hn : n ∉ t.entered) :
    m.registry.find? (g.symbol n) = none := by
  refine (Registry.find?_eq_none_iff _ _).2 (fun r hr hsame => hn ?_)
  have hmem : r.symbol ∈ t.entered.map g.symbol := h.records ▸ List.mem_map_of_mem hr
  obtain ⟨k, hk, hsymbol⟩ := List.mem_map.1 hmem
  rw [← hsymbol] at hsame
  exact hdistinct k n hsame ▸ hk

theorem quiet (h : Tracks g configuration system before t m) {events : List Event}
    (hallows : m.AllowsAll events) (hquiet : ∀ event ∈ events, event.isQuiet) :
    Tracks g configuration system before t (m.replay events) := by
  refine ⟨(closed_serves _ _).replay h.serves hallows, ?_, ?_, ?_⟩
  · rw [Machine.builtins_replay, h.builtins]
  · rw [(Machine.replay_quiet hquiet).1, h.records]
  · rw [Machine.printed_replay, printedTexts_quiet hquiet, List.append_nil, h.printed]

theorem search (h : Tracks g configuration system before t m) (candidates : List Candidate) :
    Tracks g configuration system before t
      (m.replay (m.settling ++ probes (tried m.system candidates))) :=
  h.quiet (conduct_search _ m).course.allowsAll (fun _ he => quiet_search _ he)

theorem plain (h : Tracks g configuration system before t m) (event : Event)
    (hplain : event.isPlain) (hquiet : event.isQuiet) :
    Tracks g configuration system before t (m.record event) :=
  h.quiet (Incident.plain hplain).allowsAll (fun _ he => List.mem_singleton.1 he ▸ hquiet)

theorem opening (h : Tracks g configuration system before t m)
    (new : m.registry.find? (g.symbol n) = none) (path : String) :
    Tracks g configuration system before (t.enter n)
      (m.replay (scriptOpening (g.symbol n) path)) := by
  refine ⟨(closed_serves _ _).replay h.serves (Course.allowsAll_scriptOpening path new), ?_, ?_, ?_⟩
  · rw [Machine.builtins_replay, h.builtins]
  · have hmodules := Machine.modules_record_registered (m := m.record (.chosen (g.symbol n)
      ⟨path, .scriptSource⟩)) (r := ⟨g.symbol n, .scriptSource, path, none⟩) new
    change (((m.record _).record _).registry.modules.map _) = _
    rw [hmodules, List.map_append, Traversal.entered_enter, List.map_append]
    exact congrArg (· ++ _) h.records
  · rw [Machine.printed_replay, h.printed]
    exact List.append_nil _

theorem leave (h : Tracks g configuration system before t m) (n : ι) :
    Tracks g configuration system before (t.leave n) (m.record (.printed (g.line n))) := by
  refine ⟨closed_serves _ _ m _ h.serves trivial, h.builtins, h.records, ?_⟩
  have hprinted := m.printed_replay [.printed (g.line n)]
  rw [h.printed] at hprinted
  rw [Traversal.left_leave, List.map_append, ← List.append_assoc]
  exact hprinted

end Tracks

/-! ## Actions that come back -/

namespace Action
variable {α β : Type}

/-- The action comes back with a value and in a state of this kind. -/
def Returns (a : Action α) (m : Machine) (P : α → Machine → Prop) : Prop :=
  ∃ x after, a.on m = (.ok x, after) ∧ P x after

theorem Returns.after {a b : Action α} {m n : Machine} {P : α → Machine → Prop}
    (h : b.Returns n P) (hon : a.on m = b.on n) : a.Returns m P := by
  obtain ⟨x, after, hb, hP⟩ := h
  exact ⟨x, after, hon.trans hb, hP⟩

theorem Returns.bind {a : Action α} {f : α → Action β} {m : Machine} {P : α → Machine → Prop}
    {Q : β → Machine → Prop} (h : a.Returns m P)
    (hf : ∀ x after, P x after → (f x).Returns after Q) : (a >>= f).Returns m Q := by
  obtain ⟨x, after, ha, hP⟩ := h
  exact (hf x after hP).after (on_bind_ok ha f)

theorem Returns.map {a : Action α} {m : Machine} {P : α → Machine → Prop} {Q : β → Machine → Prop}
    (f : α → β) (h : a.Returns m P) (hQ : ∀ x after, P x after → Q (f x) after) :
    (f <$> a).Returns m Q := by
  rw [map_eq_pure_bind]
  exact h.bind (fun x after hP => ⟨f x, after, rfl, hQ x after hP⟩)

theorem Returns.value {a : Action α} {m : Machine} {P : Machine → Prop} (f : α → β)
    (h : a.Returns m (fun _ => P)) : (f <$> a).Returns m (fun _ => P) :=
  h.map f (fun _ _ hP => hP)

end Action

/-! ## Scripts -/

theorem on_callByName_builtin {exec : Execute} {m : Machine} (hm : m.builtins = Builtin.table)
    {name : String} {function : Builtin} (hname : Builtin.ofName? name = some function)
    (location : Script.Location) {arguments : List Value}
    (hfits : function.signature.flaw? arguments.length = none) :
    (callByName exec name location arguments).on m = (function.call exec arguments).on m := by
  have hcallable : m.callable? name = some (.builtin function) := by
    rw [Machine.callable?, hm, Builtin.get?_table_of_ofName? hname]
    rfl
  unfold callByName
  rw [on_get_bind, hcallable]
  simp only [Callable.signature?, Option.bind_some, hfits]
  rfl

/-- The call of a statement is a call of the function with the value that is written out. -/
theorem on_evaluateStatement_calls (exec : Execute) {m : Machine} (hm : m.builtins = Builtin.table)
    (file : String) {function : Builtin} {s : Symbol} {statement : Statement Literal}
    (h : statement.call? = some (function, s)) (hfits : function.signature.flaw? 1 = none) :
    ∃ value, value.symbol? = some s ∧ value.display = s.name ∧
      (evaluateStatement exec file statement).on m = (function.call exec [value]).on m := by
  obtain ⟨name, argument, span, rfl, hname, hargument⟩ : ∃ name argument span,
      statement = .evaluate (.call name [argument] span) ∧
        Builtin.ofName? name = some function ∧ argument.moduleName? = some s := by
    unfold Script.Statement.call? at h
    split at h
    · rename_i name argument span
      obtain ⟨found, hname, hfound⟩ := Option.bind_eq_some_iff.1 h
      obtain ⟨named, hargument, hpair⟩ := Option.map_eq_some_iff.1 hfound
      cases hpair
      exact ⟨name, argument, span, rfl, hname, hargument⟩
    · cases h
  obtain ⟨value, hvalue, hsymbol, hdisplay⟩ := evaluate_named hargument
  refine ⟨value, hsymbol, hdisplay, ?_⟩
  rw [evaluateStatement, evaluate, evaluateAll, hvalue, pure_bind, evaluateAll, pure_bind,
    pure_bind]
  exact on_callByName_builtin hm hname _ hfits

section Simulation
variable {ι : Type} [Fintype ι] [DecidableEq ι] {g : ModuleGraph ι} {configuration : Configuration}
  {system : System} {before : List String}

/-- At this depth, a require of a module visits it. -/
def Visits (g : ModuleGraph ι) (configuration : Configuration) (system : System)
    (before : List String) (depth : Nat) : Prop :=
  ∀ (t : Traversal ι) (m : Machine) (n : ι), Tracks g configuration system before t m →
    t.unseen ≤ depth → (requireSymbol (execute depth) (g.symbol n)).Returns m
      (fun requirement after => requirement.module?.isSome ∧
        Tracks g configuration system before (tour g.deps t [n]) after)

/-- A require that finds its module does the same where a missing module is a fault. -/
theorem returns_requireOrFail {exec : Execute} {value : Value} {m : Machine}
    {P : Machine → Prop} (h : (require exec value).Returns m
      (fun requirement after => requirement.module?.isSome ∧ P after)) :
    (requireOrFail exec value).Returns m (fun _ after => P after) := by
  refine h.bind (fun requirement after hafter => ?_)
  cases requirement with
  | notFound s => cases hafter.1
  | alreadyLoaded r => exact ⟨_, after, rfl, hafter.2⟩
  | resolved r => exact ⟨_, after, rfl, hafter.2⟩

variable {depth : Nat}

/-- A script visits what its module depends on, and is done once it has printed its name. -/
theorem returns_runStatements (hvisits : Visits g configuration system before depth)
    (file : String) {ds : List ι} {requires : List (Statement Literal)}
    (hrequires : requires.map Script.Statement.call? =
      ds.map (fun d => some (.require, g.symbol d)))
    {n : ι} {last : Statement Literal} (hlast : last.call? = some (.print, g.symbol n))
    {t : Traversal ι} {m : Machine} (h : Tracks g configuration system before t m)
    (hdepth : t.unseen ≤ depth) (value : Value) :
    (runStatements (execute depth) file value (requires ++ [last])).Returns m
      (fun _ after => Tracks g configuration system before ((tour g.deps t ds).leave n) after) := by
  induction ds generalizing requires t m value with
  | nil =>
      obtain rfl := List.map_eq_nil_iff.1 hrequires
      obtain ⟨shown, -, hshown, hon⟩ := on_evaluateStatement_calls (execute depth)
        h.builtins file hlast rfl
      have hprint : (Builtin.print.call (execute depth) [shown]).on m =
          (.ok .nil, m.record (.printed (g.line n))) := by
        change (Except.ok Value.nil, m.record (.printed (shown.display ++ "\n"))) = _
        rw [hshown]
        rfl
      rw [tour_nil]
      exact Returns.bind ⟨.nil, _, hon.trans hprint, h.leave n⟩
        (fun x after hafter => ⟨x, after, rfl, hafter⟩)
  | cons d ds ih =>
      obtain ⟨statement, others, rfl, hcall, hothers⟩ := List.map_eq_cons_iff.1 hrequires
      obtain ⟨asked, hasked, -, hon⟩ := on_evaluateStatement_calls (execute depth)
        h.builtins file hcall rfl
      have hrequire := hvisits t m d h hdepth
      rw [← require_eq (execute depth) hasked] at hrequire
      rw [tour_cons]
      refine Returns.bind (P := fun _ after => Tracks g configuration system before
        (tour g.deps t [d]) after) (Returns.after ?_ hon) (fun x after hafter => ?_)
      · exact (returns_requireOrFail hrequire).value _
      · exact ih hothers hafter ((Traversal.unseen_le (entered_subset_tour g.deps t [d])).trans hdepth) x

theorem returns_loadScript (hvisits : Visits g configuration system before depth) {n : ι}
    {path : String} {text : List Char} {program : Program}
    (htext : system.readText path = .ok text)
    (hparse : Script.parse system.names path text = .ok program) (hsource : g.IsSource n program)
    {t : Traversal ι} {m : Machine}
    (h : Tracks g configuration system before t m) (hdepth : t.unseen ≤ depth) :
    (loadScript (execute (depth + 1)) path).Returns m
      (fun _ after => Tracks g configuration system before ((tour g.deps t (g.deps n)).leave n)
        after) := by
  obtain ⟨requires, lasts, hstatements, hrequires, hlasts⟩ := List.map_eq_append_iff.1 hsource
  obtain ⟨last, rfl, hlast⟩ := List.map_eq_singleton_iff.1 hlasts
  have hread : Tracks g configuration system before t (m.record (.consulted .read path)) :=
    h.plain _ rfl rfl
  have hcompile : (compileFile path).on m =
      (.ok ⟨path, program⟩, m.record (.consulted .read path)) := by
    rw [← h.serves.system] at htext hparse
    exact on_compileFile htext hparse
  refine Returns.bind ⟨_, _, hcompile, rfl, hread⟩ ?_
    (P := fun compiled after => compiled = ⟨path, program⟩ ∧
      Tracks g configuration system before t after)
  rintro compiled after ⟨rfl, hafter⟩
  have hrun := (hafter.plain (.noted (.executing path)) rfl rfl).plain
    (.noted (.running program.file program.statements.length)) rfl rfl
  refine (returns_runStatements hvisits program.file hrequires hlast hrun hdepth .nil).after ?_
  rw [← hstatements]
  rfl

omit [Fintype ι] [DecidableEq ι] in
theorem returns_known (exec : Execute) {n : ι} {t : Traversal ι} {m : Machine}
    (h : Tracks g configuration system before t m) (hn : n ∈ t.entered) :
    (requireSymbol exec (g.symbol n)).Returns m (fun requirement after =>
      requirement.module?.isSome ∧ Tracks g configuration system before t after) := by
  obtain ⟨r, hr⟩ := h.exists_record hn
  exact ⟨_, _, on_requireSymbol_known exec hr, rfl, h.plain _ rfl rfl⟩

/-- A module that is new is entered, and left once its script ran. -/
theorem returns_new (laid : g.LaidOut configuration system)
    (hvisits : Visits g configuration system before depth) {n : ι} {t : Traversal ι} {m : Machine}
    (h : Tracks g configuration system before t m) (hn : n ∉ t.entered)
    (hdepth : t.unseen ≤ depth + 1) :
    (requireSymbol (execute (depth + 1)) (g.symbol n)).Returns m (fun requirement after =>
      requirement.module?.isSome ∧
        Tracks g configuration system before ((tour g.deps (t.enter n) (g.deps n)).leave n)
          after) := by
  obtain ⟨path, text, program, hfind, htext, hparse, hsource⟩ := laid.script n
  have hfirst : (m.files (g.symbol n).name).find? (fun c => m.system.isFile c.path) =
      some ⟨path, .scriptSource⟩ := by
    rw [h.serves.files, h.serves.system]
    exact hfind
  have hready := h.search (m.files (g.symbol n).name)
  have hnew := hready.find?_eq_none laid.distinct hn
  have hless := Traversal.unseen_enter hn
  have hload := returns_loadScript hvisits htext hparse hsource (hready.opening hnew path)
    (by omega)
  have hcandidate : Returns (loadCandidate (execute (depth + 1)) (g.symbol n)
      ⟨path, .scriptSource⟩) _ (fun _ after => Tracks g configuration system before
        ((tour g.deps (t.enter n) (g.deps n)).leave n) after) :=
    (hload.value _).after (on_loadCandidate_script _ path hnew)
  exact (hcandidate.map Requirement.resolved (fun _ _ hafter => ⟨rfl, hafter⟩)).after
    (on_requireSymbol_found _ (h.find?_eq_none laid.distinct hn) hfirst)

/-- A require visits its module, at every depth at which the modules not entered yet can be
nested. -/
theorem visits (laid : g.LaidOut configuration system) (depth : Nat) :
    Visits g configuration system before depth := by
  -- A module is entered before its script runs, so that one less is unseen for what it requires.
  induction depth with
  | zero =>
      intro t m n h hdepth
      by_cases hn : n ∈ t.entered
      · rw [tour_singleton_seen hn]
        exact returns_known _ h hn
      · exact absurd (Traversal.unseen_enter hn) (by omega)
  | succ depth ih =>
      intro t m n h hdepth
      by_cases hn : n ∈ t.entered
      · rw [tour_singleton_seen hn]
        exact returns_known _ h hn
      · rw [tour_singleton_new hn]
        exact returns_new laid ih h hn hdepth

end Simulation

/-! ## Runs -/

def requireTurns (depth : Nat) (values : List Value) : List Turn :=
  values.map (fun value => ⟨depth, .require value, rfl⟩)

/-- What the outcomes of a run tell was printed is what was printed by its end. -/
theorem printed_finalState (settings : Settings) (m : Machine) (turns : List Turn) :
    (finalState settings m turns).printed =
      m.printed ++ printedTexts ((runTurns settings m turns).flatMap Outcome.events) := by
  induction turns generalizing m with
  | nil => exact (List.append_nil _).symm
  | cons t rest ih =>
      obtain ⟨hafter, -⟩ := observe_course settings t m
      have hturn := m.printed_replay (observe (perform settings t.depth t.operation) m).1.events
      rw [Machine.printed, ← hafter.trace] at hturn
      rw [finalState, ih, runTurns_cons, List.flatMap_cons, printedTexts_append,
        ← List.append_assoc, ← hturn]
      rfl

section Runs
variable {ι : Type} [Fintype ι] [DecidableEq ι] {g : ModuleGraph ι} {configuration : Configuration}
  {system : System} {before : List String} {depth : Nat}

/-- The requires of a run visit their modules. -/
theorem tracks_finalState (settings : Settings) (laid : g.LaidOut configuration system)
    {asked : ι → Value} (hasked : ∀ n, (asked n).symbol? = some (g.symbol n)) (roots : List ι)
    {t : Traversal ι} {m : Machine} (h : Tracks g configuration system before t m)
    (hdepth : t.unseen ≤ depth) :
    (∀ o ∈ runTurns settings m (requireTurns depth (roots.map asked)),
        ∃ requirement, o.result = .ok (.requirement requirement) ∧ requirement.module?.isSome) ∧
      Tracks g configuration system before (tour g.deps t roots)
        (finalState settings m (requireTurns depth (roots.map asked))) := by
  induction roots generalizing t m with
  | nil =>
      rw [tour_nil]
      exact ⟨fun o ho => absurd ho List.not_mem_nil, h⟩
  | cons n roots ih =>
      have hvisit := visits laid depth t m n h hdepth
      rw [← require_eq (execute depth) (hasked n)] at hvisit
      obtain ⟨requirement, after, hon, hfound, hafter⟩ := hvisit
      have hperform : (perform settings depth (.require (asked n))).on m =
          (.ok (.requirement requirement), after) := by
        change (Answer.requirement <$> require (execute depth) (asked n)).on m = _
        rw [on_map, hon]
        rfl
      have hresult : (observe (perform settings depth (.require (asked n))) m).1.result =
          .ok (.requirement requirement) := congrArg Prod.fst hperform
      have hstate : (observe (perform settings depth (.require (asked n))) m).2 = after :=
        congrArg Prod.snd hperform
      have hseen := (Traversal.unseen_le (entered_subset_tour g.deps t [n])).trans hdepth
      obtain ⟨hresults, hfinal⟩ := ih hafter hseen
      have hturns : requireTurns depth ((n :: roots).map asked) =
          ⟨depth, .require (asked n), rfl⟩ :: requireTurns depth (roots.map asked) := rfl
      rw [hturns, runTurns_cons, finalState, hstate, tour_cons]
      refine ⟨fun o ho => ?_, hfinal⟩
      rcases List.mem_cons.1 ho with rfl | ho
      · exact ⟨requirement, hresult, hfound⟩
      · exact hresults o ho

end Runs

/-- Where modules are laid out as scripts that require what they depend on and then print their
name, the requires of some roots come back, each with the record of its module. The names that are
printed are those of the modules that a depth-first traversal leaves, in order, which are all that
the roots lead to, each one once; and the records are in the order in which it enters them. So the
modules that are loaded do not depend on the order of the roots. -/
theorem modules_depthFirst {ι : Type} [Fintype ι] [DecidableEq ι] (settings : Settings)
    (m : Machine) (configuration : Configuration) (g : ModuleGraph ι)
    (laid : g.LaidOut configuration m.system) (asked : ι → Value)
    (hasked : ∀ n, (asked n).symbol? = some (g.symbol n)) (depth : Nat)
    (hdepth : Fintype.card ι ≤ depth) (roots : List ι) :
    let first := m.restart configuration
    let turns (nodes : List ι) := requireTurns depth (nodes.map asked)
    let loaded (nodes : List ι) :=
      (finalState settings first (turns nodes)).registry.modules.map LoadedModule.symbol
    let walk := tour g.deps .start roots
    (∀ o ∈ runTurns settings first (turns roots),
        ∃ requirement, o.result = .ok (.requirement requirement) ∧ requirement.module?.isSome) ∧
      printedTexts ((runTurns settings first (turns roots)).flatMap Outcome.events) =
        walk.left.map g.line ∧
      walk.left.Nodup ∧ (∀ n, n ∈ walk.left ↔ ∃ root ∈ roots, Reaches g.deps root n) ∧
      loaded roots = walk.entered.map g.symbol ∧
      ∀ others, others.Perm roots → (loaded others).Perm (loaded roots) := by
  intro first turns loaded walk
  have hfirst : Tracks g configuration m.system first.printed .start first :=
    ⟨⟨fun _ h => (by cases h), rfl, rfl⟩, rfl, rfl, (List.append_nil _).symm⟩
  have hunseen : (Traversal.start : Traversal ι).unseen ≤ depth :=
    Traversal.unseen_start.trans_le hdepth
  have hrun (nodes : List ι) := tracks_finalState settings laid hasked nodes hfirst hunseen
  obtain ⟨hresults, hfinal⟩ := hrun roots
  obtain ⟨hperm, hnodup⟩ := left_tour g.deps roots
  refine ⟨hresults, ?_, hnodup, fun n => ?_, hfinal.records, fun others hothers => ?_⟩
  · have hprinted := hfinal.printed
    rw [printed_finalState] at hprinted
    exact List.append_cancel_left hprinted
  · rw [hperm.mem_iff, mem_entered_tour]
  · have hentered : (tour g.deps .start others).entered.Perm walk.entered := by
      refine (List.perm_ext_iff_of_nodup (nodup_tour _ _ List.nodup_nil)
        (nodup_tour _ _ List.nodup_nil)).2 (fun n => ?_)
      rw [mem_entered_tour, mem_entered_tour]
      simp only [hothers.mem_iff]
    have hloaded := hentered.map g.symbol
    rwa [← (hrun others).2.records, ← hfinal.records] at hloaded

/-- Four modules with a diamond and circles. -/
def woven : ModuleGraph (Fin 4) where
  name n := ["a", "b", "c", "d"].getD n.val ""
  deps n := [[1, 2], [3, 0], [3], [3, 1]].getD n.val []

/-- A loader in whose system the modules are laid out. -/
def weaver : Machine :=
  let bare := System.bare (some "/work")
  let script (source : String) : Node :=
    .file ⟨some (Text.Utf8.encode source.toList), .opens none none⟩
  let system := (((bare.write "m/a.lps" (script "Require('b); Require('c); Print(\"a\")")).write
    "m/b.lps" (script "Require('d)\nRequire('a)\nPrint('b)")).write
    "m/c.lps" (script "Require('d) Print(\"c\")")).write
    "m/d.lps" (script "Require('d); Require(\"b\"); Print(\"d\")")
  (Machine.blank system).restart
    ⟨some [.named "m"], Extension.standard, "/opt/app/bin", [], standardEntryPoint⟩

theorem laidOut_weaver : woven.LaidOut weaver.configuration weaver.system where
  distinct := by decide +kernel
  script n := by
    have hlaid : ∃ path, (weaver.configuration.candidates (woven.name n)).find?
        (fun c => weaver.system.isFile c.path) = some ⟨path, .scriptSource⟩ ∧
      (weaver.system.readText path).toOption.any (fun text =>
        (Script.parse weaver.system.names path text).toOption.any
          (fun program => woven.IsSource n program)) := by
      refine ⟨"m/" ++ woven.name n ++ ".lps", ?_⟩
      revert n
      decide +kernel
    obtain ⟨path, hfind, hsource⟩ := hlaid
    obtain ⟨text, htext, hsource⟩ := (Option.any_eq_true _ _).1 hsource
    obtain ⟨program, hparse, hsource⟩ := (Option.any_eq_true _ _).1 hsource
    exact ⟨path, text, program, hfind, eq_ok_of_toOption htext, eq_ok_of_toOption hparse,
      of_decide_eq_true hsource⟩

theorem tour_woven : tour woven.deps .start [1, 0] = ⟨[1, 3, 0, 2], [3, 2, 0, 1]⟩ := by
  have hdeps : woven.deps 0 = [1, 2] ∧ woven.deps 1 = [3, 0] ∧ woven.deps 2 = [3] ∧
      woven.deps 3 = [3, 1] := by decide
  obtain ⟨h0, h1, h2, h3⟩ := hdeps
  simp [tour_cons_new, tour_cons_seen, Traversal.start, Traversal.enter, Traversal.leave, h0, h1,
    h2, h3]

/-- The requires of two of the modules load all four of them. -/
theorem modules_depthFirst_woven :
    let turns := requireTurns 4 [.string "b", .string "a"]
    printedText ((runTurns {} weaver turns).flatMap Outcome.events) = "d\nc\na\nb\n" ∧
      (finalState {} weaver turns).registry.modules.map LoadedModule.symbol =
        [⟨"b"⟩, ⟨"d"⟩, ⟨"a"⟩, ⟨"c"⟩] := by
  obtain ⟨-, hprinted, -, -, hloaded, -⟩ := modules_depthFirst {} weaver weaver.configuration woven
    laidOut_weaver (fun n => .string (woven.name n)) (fun _ => rfl) 4 (Nat.le_refl _) [1, 0]
  rw [tour_woven] at hprinted hloaded
  refine ⟨?_, hloaded⟩
  rw [printedText_eq]
  exact congrArg String.join hprinted

end ModuleLoader
