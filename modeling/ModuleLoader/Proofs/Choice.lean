import ModuleLoader.Proofs.Completion
import ModuleLoader.Proofs.Leaks
import ModuleLoader.Proofs.Rules
import ModuleLoader.Proofs.Starting

/-!
# Which files are chosen

The files that may hold a module are fixed when a loader starts. Scripts bind globals as they like,
those that show the configuration and those with the names of functions among them, and change
neither which file is chosen for a module nor what a call of a function runs.

* `Configuration.first?` : the file that a loader with this configuration chooses in a system;
* `choosing`, `bears_choosing` : every file that was chosen is that file, as a rule for scripts;
* `keeps_perform` : the operations on a loader keep to a rule that leaves values and failures alone;
* `Operation.defines`, `builtins_of_mem_instants` : the functions stay the same unless a host
  defines one;
* `serves_of_mem_instants`, `chosen_of_mem_instants` : the candidates and the choices of a run;
* `loading_fixed` : what is chosen and what is called, at every moment of a run.
-/

namespace ModuleLoader

open ModuleLoader.Action

def Configuration.first? (configuration : Configuration) (system : System) (name : String) :
    Option Candidate :=
  (configuration.candidates name).find? (fun c => system.isFile c.path)

/-! ## One operation -/

/-- The loader is the same one in the same system, and since the start every file that was chosen
for a module is the first candidate that exists. -/
structure Choosing (configuration : Configuration) (system : System) (start m : Machine) :
    Prop where
  serves : m.Serves configuration system
  chosen : ∃ events : List Event, m.trace = events.reverse ++ start.trace ∧
    ∀ s c, .chosen s c ∈ events → configuration.first? system s.name = some c

/-- Files are chosen in the order of the candidates, whatever values scripts compute and why ever
they stop. -/
def choosing (configuration : Configuration) (system : System) (start : Machine) : Rule where
  state := Choosing configuration system start
  value := fun _ => True
  stop := fun _ => True

section Choosing
variable {configuration : Configuration} {system : System} {start m : Machine}

theorem serves_record {event : Event} (h : m.Serves configuration system)
    (hadmits : (choosing configuration system start).Admits m event) :
    (m.record event).Serves configuration system := by
  refine ⟨?_, ?_, ?_⟩
  · cases event with
    | settled directories =>
      rintro _ ⟨⟩
      rw [← h.configuration]
      exact hadmits
    | _ => exact h.searchPath
  · rw [Machine.configuration_record, h.configuration]
  · rw [Machine.system_record, h.system]

variable (configuration system start) in
theorem bears_choosing : (choosing configuration system start).Bears where
  event := by
    intro m event hm hadmits
    obtain ⟨events, htrace, hchosen⟩ := hm.chosen
    refine ⟨serves_record hm.serves hadmits, events ++ [event], ?_, fun s c hc => ?_⟩
    · rw [Machine.trace_record, htrace]
      simp
    · rcases List.mem_append.1 hc with hc | hc
      · exact hchosen s c hc
      · rw [List.mem_singleton] at hc
        subst hc
        obtain ⟨-, hfirst⟩ := hadmits
        rw [hm.serves.files, hm.serves.system] at hfirst
        exact hfirst
  plain := fun _ => trivial
  global := fun _ _ => trivial
  answer := fun _ _ _ => trivial
  refusal := fun _ _ _ => trivial
  stop := fun _ => trivial

end Choosing

section Perform
variable {rule : Rule} (hrule : rule.Bears) (hvalue : ∀ value, rule.value value)
  (hstop : ∀ stop, rule.stop stop)

include hstop in
theorem keeps_symbolOf (value : Value) : Keeps rule (symbolOf value) := by
  cases value with
  | symbol s => exact obeys_pure trivial
  | string text => exact obeys_pure trivial
  | _ => exact obeys_fail (hstop _)

include hrule in
theorem keeps_useSearchPath : Keeps rule useSearchPath := by
  intro m hm
  have hstate := state_search hrule hm []
  refine ⟨?_, fun _ _ => trivial, fun stop hstop => ?_⟩
  · rw [on_useSearchPath]
    simpa [probes] using hstate
  · rw [on_useSearchPath] at hstop
    cases hstop

include hrule hvalue hstop in
/-- What a host asks of a loader keeps to a rule that allows every value and every failure. -/
theorem keeps_perform (settings : Settings) (depth : Nat) {operation : Operation}
    (internal : operation.isInternal) : Keeps rule (perform settings depth operation) := by
  have hexec := obeys_execute hrule depth
  cases operation with
  | runSource file source =>
    exact (obeys_runSource hrule hexec _ _).map (fun _ _ => trivial)
  | require value => exact (keeps_require hrule hexec value).map (fun _ _ => trivial)
  | requireOrFail value =>
    exact (keeps_requireOrFail hrule hexec value).map (fun _ _ => trivial)
  | loadScript path =>
    exact (keeps_stringOf hrule path).bind (fun path _ =>
      (obeys_loadScript hrule hexec path).bind (fun _ _ => obeys_pure trivial))
  | compileFile path =>
    exact (keeps_stringOf hrule path).bind (fun path _ =>
      (keeps_compileFile hrule path).bind (fun _ _ => obeys_pure trivial))
  | loadLibrary path =>
    exact (keeps_stringOf hrule path).bind (fun path _ =>
      (keeps_loadLibrary hrule hexec path).bind (fun _ _ => obeys_pure trivial))
  | call function arguments =>
    exact (obeys_call hrule hexec function arguments).map (fun _ _ => trivial)
  | callScript compiled => exact (hexec compiled.program).map (fun _ _ => trivial)
  | candidates name => exact (keeps_candidates hrule name).map (fun _ _ => trivial)
  | searchPath => exact (keeps_useSearchPath hrule).bind (fun _ _ => obeys_pure trivial)
  | bindGlobal name value =>
    exact (keeps_symbolOf hstop name).bind (fun s _ =>
      (keeps_bindGlobal hrule s (hvalue value)).bind (fun _ _ => obeys_pure trivial))
  | isLoaded value =>
    exact (keeps_symbolOf hstop value).bind (fun _ _ =>
      obeys_get.bind (fun _ _ => obeys_pure trivial))
  | getGlobal name default =>
    exact (keeps_symbolOf hstop name).bind (fun _ _ =>
      obeys_get.bind (fun _ _ => obeys_pure trivial))
  | hasGlobal name =>
    exact (keeps_symbolOf hstop name).bind (fun _ _ =>
      obeys_get.bind (fun _ _ => obeys_pure trivial))
  | modules => exact obeys_get.bind (fun _ _ => obeys_pure trivial)
  | extensions => exact obeys_get.bind (fun _ _ => obeys_pure trivial)
  | globals => exact obeys_get.bind (fun _ _ => obeys_pure trivial)
  | exeDir => exact obeys_get.bind (fun _ _ => obeys_pure trivial)
  | environment => exact obeys_get.bind (fun _ _ => obeys_pure trivial)
  | _ => cases internal

end Perform

/-! ## Runs -/

/-- The operation puts a function of the host in the table. -/
def Operation.defines : Operation → Bool
  | .define _ _ => true
  | _ => false

section Run
variable {settings : Settings} {configuration : Configuration} {m : Machine}

theorem events_of_external (t : Turn) (external : t.operation.isInternal = false) (m : Machine) :
    (observe (perform settings t.depth t.operation) m).1.events = [] := by
  obtain ⟨depth, operation, keeps⟩ := t
  have hsame {after : Machine} (h : after.trace = m.trace) : after.since m = [] := by
    simp [Machine.since, h]
  cases operation with
  | define name function => cases name <;> exact hsame rfl
  | write | delete | enter | setEnvironment => exact hsame rfl
  | restart => cases keeps
  | _ => cases external

theorem chosen_of_turn (hm : m.Serves configuration m.system) (t : Turn) {s : Symbol}
    {c : Candidate}
    (hc : .chosen s c ∈ (observe (perform settings t.depth t.operation) m).1.events) :
    configuration.first? m.system s.name = some c := by
  by_cases internal : t.operation.isInternal
  · have hrule := bears_choosing configuration m.system m
    have hstart : Choosing configuration m.system m m :=
      ⟨hm, [], rfl, fun s c hc => absurd hc List.not_mem_nil⟩
    obtain ⟨-, events, htrace, hchosen⟩ := (keeps_perform hrule (fun _ => trivial)
      (fun _ => trivial) settings t.depth internal m hstart).state
    refine hchosen s c ?_
    have hevents : (observe (perform settings t.depth t.operation) m).1.events = events := by
      change (((perform settings t.depth t.operation).on m).2).since m = events
      unfold Machine.since
      rw [htrace]
      simp
    rwa [hevents] at hc
  · rw [events_of_external t (by simpa using internal)] at hc
    exact absurd hc List.not_mem_nil

theorem serves_of_turn (hm : m.Serves configuration m.system) (t : Turn) :
    let after := (observe (perform settings t.depth t.operation) m).2
    after.Serves configuration after.system := by
  obtain ⟨hafter, hc⟩ := observe_course settings t m
  have hreplay := (closed_serves configuration m.system).replay hm hc.allowsAll
  refine ⟨?_, ?_, rfl⟩
  · rw [hafter.searchPath]
    exact hreplay.searchPath
  · rw [hafter.configuration]
    exact hreplay.configuration

/-- At every moment of a run the loader serves its configuration, and the files chosen until then
in the operation under way are the first candidates that exist. -/
theorem chosen_of_mem_instants (hm : m.Serves configuration m.system) {turns : List Turn}
    {i : Machine × List Event} (hi : i ∈ instants settings m turns) :
    i.1.Serves configuration i.1.system ∧
      ∀ s c, .chosen s c ∈ i.2 → configuration.first? i.1.system s.name = some c := by
  induction turns generalizing m with
  | nil =>
    obtain rfl := List.mem_singleton.1 hi
    exact ⟨hm, fun s c hc => absurd hc List.not_mem_nil⟩
  | cons t rest ih =>
    rw [instants_cons] at hi
    rcases List.mem_append.1 hi with hi | hi
    -- A moment of the first turn: some of its events have happened, and none touches the system.
    · obtain ⟨p, hp, rfl⟩ := List.mem_map.1 hi
      obtain ⟨more, hmore⟩ := (List.mem_inits _ _).1 hp
      obtain ⟨-, hc⟩ := observe_course settings t m
      have hallows := hc.allowsAll
      rw [← hmore] at hallows
      have hserves := (closed_serves configuration m.system).replay hm
        (Machine.allowsAll_append.1 hallows).1
      dsimp only
      rw [Machine.system_replay]
      refine ⟨hserves, fun s c hc => ?_⟩
      have hmem : .chosen s c ∈ (observe (perform settings t.depth t.operation) m).1.events := by
        rw [← hmore]
        exact List.mem_append_left more hc
      exact chosen_of_turn hm t hmem
    · exact ih (serves_of_turn hm t) hi

theorem builtins_of_turn (t : Turn) (h : t.operation.defines = false) (m : Machine) :
    (observe (perform settings t.depth t.operation) m).2.builtins = m.builtins := by
  by_cases internal : t.operation.isInternal
  · obtain ⟨events, hafter, -⟩ := orderly_perform settings t.depth internal m
    change ((perform settings t.depth t.operation).on m).2.builtins = m.builtins
    rw [hafter, Machine.builtins_replay]
  · obtain ⟨depth, operation, keeps⟩ := t
    cases operation with
    | define name function => cases h
    | write | delete | enter | setEnvironment => rfl
    | restart => cases keeps
    | _ => exact absurd rfl internal

/-- Unless a host defines one, the functions are the same at every moment of a run. -/
theorem builtins_of_mem_instants {turns : List Turn}
    (h : ∀ t ∈ turns, t.operation.defines = false) {i : Machine × List Event}
    (hi : i ∈ instants settings m turns) : i.1.builtins = m.builtins := by
  induction turns generalizing m with
  | nil =>
    obtain rfl := List.mem_singleton.1 hi
    rfl
  | cons t rest ih =>
    rw [instants_cons] at hi
    rcases List.mem_append.1 hi with hi | hi
    · obtain ⟨p, -, rfl⟩ := List.mem_map.1 hi
      exact Machine.builtins_replay m p
    · rw [ih (fun u hu => h u (List.mem_cons_of_mem t hu)) hi]
      exact builtins_of_turn t (h t List.mem_cons_self) m

theorem serves_finalState (hm : m.Serves configuration m.system) (turns : List Turn) :
    (finalState settings m turns).Serves configuration (finalState settings m turns).system := by
  induction turns generalizing m with
  | nil => exact hm
  | cons t rest ih => exact ih (serves_of_turn hm t)

end Run

/-- What a loader is started with fixes, for as long as it runs, its extensions, the candidates of
every module and which of them is chosen. Whatever scripts bind, at no moment does it change, and a
call of a function of the table runs that function, as long as the host defines no other. -/
theorem loading_fixed (settings : Settings) {before loader : Machine}
    (started : (start settings).on before = (.ok (), loader)) (earlier turns : List Turn) :
    ∃ exeDir, settings.exeDirIn before.system = .ok exeDir ∧
      let fixed := settings.configurationIn before.system exeDir
      let ready := finalState settings loader earlier
      ∀ i ∈ instants settings ready turns,
        i.1.configuration.extensions = fixed.extensions ∧
        (∀ name, ((candidates name).on i.1).1 = .ok (fixed.candidates name)) ∧
        (∀ s c, .chosen s c ∈ i.2 → fixed.first? i.1.system s.name = some c) ∧
        ((∀ t ∈ turns, t.operation.defines = false) →
          i.1.builtins = ready.builtins ∧
          ∀ name function, ready.builtins.get? ⟨name⟩ = some function →
            i.1.callable? name = some function) := by
  obtain ⟨notes, hstart⟩ := on_start settings before
  rw [started] at hstart
  cases hexe : settings.exeDirIn before.system with
  | error fault =>
    rw [hexe] at hstart
    cases hstart
  | ok exeDir =>
    rw [hexe] at hstart
    have hloader : loader = _ := (Prod.mk.inj hstart).2
    refine ⟨exeDir, rfl, ?_⟩
    intro fixed ready i hi
    have hserves : loader.Serves fixed loader.system := by
      rw [hloader]
      exact ⟨fun _ hd => (by cases hd), rfl, rfl⟩
    obtain ⟨hnow, hchosen⟩ := chosen_of_mem_instants (serves_finalState hserves earlier) hi
    refine ⟨by rw [hnow.configuration], fun name => ?_, hchosen, fun hdefines => ?_⟩
    · rw [on_candidates, hnow.files]
    · have hbuiltins := builtins_of_mem_instants hdefines hi
      refine ⟨hbuiltins, fun name function hfunction => ?_⟩
      unfold Machine.callable?
      rw [hbuiltins, hfunction]
      rfl

/-- A system that lists the directory `m` for modules, with a module there and one of the same name
elsewhere. -/
def listing : Machine :=
  let bare := { System.bare (some "/work") with environment := [("LOADPATH_LIB", "m")] }
  let script : Node := .file ⟨some (Text.Utf8.encode "Print(1)".toList), .opens none none⟩
  Machine.blank ((bare.write "m/b.lps" script).write "x/b.lps" script)

/-- A script that binds all that could divert a require, and then requires the module. -/
def diverting : List Turn :=
  [⟨nestingLimit, .runSource "s"
    "_ENV_ := []\n_EXEDIR_ := \"x\"\nrequire := 'x\nREQUIRE('b)", rfl⟩]

/-- The module is still found in the directory that is listed, and `require` still runs. -/
theorem loading_fixed_diverting :
    let loader := ((start {}).on listing).2
    (finalState {} loader diverting).registry.find? ⟨"b"⟩ =
        some ⟨⟨"b"⟩, .scriptSource, "m/b.lps", none⟩ ∧
      ∀ i ∈ instants {} loader diverting,
        ((candidates "b").on i.1).1 =
            .ok [⟨"m/b.so", .nativeLibrary⟩, ⟨"m/b.lps", .scriptSource⟩] ∧
          i.1.callable? "REQUIRE" = some (.builtin .require) := by
  intro loader
  have started : (start {}).on listing = (.ok (), loader) := rfl
  obtain ⟨exeDir, hexe, hfixed⟩ := loading_fixed {} started [] diverting
  have hdirectory : Settings.exeDirIn {} listing.system = .ok "/work" := rfl
  obtain rfl : exeDir = "/work" := Except.ok.inj (hexe.symm.trans hdirectory)
  have hcandidates : (Settings.configurationIn {} listing.system "/work").candidates "b" =
      [⟨"m/b.so", .nativeLibrary⟩, ⟨"m/b.lps", .scriptSource⟩] := by decide +kernel
  refine ⟨by decide +kernel, fun i hi => ?_⟩
  obtain ⟨-, hnames, -, hbuiltins⟩ := hfixed i hi
  refine ⟨?_, ?_⟩
  · rw [hnames, hcandidates]
  · refine (hbuiltins ?_).2 "REQUIRE" _ ?_
    · simp [diverting, Operation.defines]
    · rfl

end ModuleLoader
