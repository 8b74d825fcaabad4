import ModuleLoader.CommandLine.Run
import ModuleLoader.Proofs.Rules
import ModuleLoader.Proofs.Starting

/-!
# How a command line ends

A command line ends with status 0 when all that it asks for was done, and with status 1 and a
complaint when something failed for a reason that is told. Few failures escape: a path or a login
with a NUL, links that lead back to themselves where the script is to be, a module that is
registered twice, scripts nested too deep, and a program whose directory cannot be told. How a run
goes on once it meets a string that is no text is left open.

* `Hostless`, `bears_hostless` : without host functions scripts stop for reasons of their own;
* `Escapes`, `complaintOf?_eq_none_iff` : the failures that are not told;
* `Loads`, `Runs`, `Succeeds` : the modules are required, the script runs, all was done;
* `Crashes`, `LeavesOpen` : a failure escapes, and what comes of the request is left open;
* `on_serve_ok_none` : what a request comes to when there is nothing to complain about;
* `exit_iff` : the exit status of a command line, and when a failure escapes.
-/

namespace ModuleLoader

open ModuleLoader.Action

/-! ## Loaders without host functions -/

namespace Bindings
variable {α : Type} {b : Bindings α} {s : Symbol} {x : α}

theorem exists_entry (h : b.get? s = some x) : ∃ entry ∈ b.entries, entry.2 = x := by
  obtain ⟨entry, hfind, rfl⟩ := Option.map_eq_some_iff.1 h
  exact ⟨entry, List.mem_of_find?_eq_some hfind, rfl⟩

end Bindings

/-- No host function can be reached by a name. -/
structure Hostless (m : Machine) : Prop where
  builtins : ∀ s function, m.builtins.get? s ≠ some (.host function)
  globals : ∀ s value, m.globals.get? s = some value → value.isHost = false

/-- Scripts without host functions, which stop for reasons of their own or because their path has no
place. -/
def hostless : Rule where
  state := Hostless
  value := fun value => value.isHost = false
  stop := fun stop => stop.isScripted ∨ ∃ unresolved : Unresolved, stop = .fault unresolved.fault

theorem Hostless.callable? {m : Machine} (hm : Hostless m) (name : String)
    (function : HostFunction) : m.callable? name ≠ some (.host function) := by
  unfold Machine.callable?
  cases hbuiltin : m.builtins.get? ⟨name⟩ with
  | some callable =>
    have hne := hm.builtins ⟨name⟩ function
    rw [hbuiltin] at hne
    exact hne
  | none =>
    cases hglobal : m.globals.get? ⟨name⟩ with
    | none => exact fun h => by cases h
    | some value =>
      have hplain := hm.globals ⟨name⟩ value hglobal
      cases value with
      | host function label => cases hplain
      | _ => exact fun h => by cases h

theorem bears_hostless : hostless.Bears where
  event := by
    intro m event hm hadmits
    refine ⟨fun s function => ?_, fun s value hvalue => ?_⟩
    · rw [Machine.builtins_record]
      exact hm.builtins s function
    · cases event with
      | bound name bound =>
        change (m.globals.set name bound).get? s = some value at hvalue
        rw [Bindings.get?_set] at hvalue
        split at hvalue
        · rw [← Option.some.inj hvalue]
          exact hadmits
        · exact hm.globals s value hvalue
      | _ => exact hm.globals s value hvalue
  plain := fun h => h
  global := fun hm h => hm.globals _ _ h
  answer := fun hm h _ => absurd h (hm.callable? _ _)
  refusal := fun hm h _ => absurd h (hm.callable? _ _)
  stop := fun h => Or.inl h

theorem hostless_restart (m : Machine) (configuration : Configuration) :
    Hostless (m.restart configuration) := by
  refine ⟨fun s function h => ?_, fun s value h => ?_⟩
  · obtain ⟨entry, hentry, hfunction⟩ := Bindings.exists_entry h
    obtain ⟨builtin, -, rfl⟩ := List.mem_map.1 hentry
    cases hfunction
  · change (initialGlobals (some configuration.exeDir) configuration.environment).get? s =
      some value at h
    unfold initialGlobals at h
    rw [Bindings.get?_set, Bindings.get?_set] at h
    split at h
    · cases h
      rfl
    · split at h
      · cases h
        rfl
      · cases h

namespace CommandLine
variable {exec : Execute}

/-! ## What is told -/

/-- The failures of scripts that are not told. -/
inductive Escapes : Stop → Prop
  | nulInPath : Escapes (.fault .nulInPath)
  | nulInLogin : Escapes (.fault (.badPath .nulInLogin))
  | circularLinks (path : String) : Escapes (.fault (.circularLinks path))
  | registeredTwice (s : Symbol) : Escapes (.fault (.registeredTwice s))
  | exhausted : Escapes .exhausted

/-- Of the failures that there can be, all others are told. -/
theorem complaintOf?_eq_none_iff (color : Bool) {stop : Stop} (h : hostless.stop stop)
    (settled : stop ≠ .brokenText) : complaintOf? color stop.report = none ↔ Escapes stop := by
  rcases h with h | ⟨unresolved, rfl⟩
  · cases stop with
    | brokenText => exact absurd rfl settled
    | exhausted => exact iff_of_true rfl .exhausted
    | fault cause =>
      cases cause with
      | nulInPath => exact iff_of_true rfl .nulInPath
      | registeredTwice s => exact iff_of_true rfl (.registeredTwice s)
      | badPath fault =>
        cases fault with
        | nulInLogin => exact iff_of_true rfl .nulInLogin
        | emptySeparator => cases h
      | library path failure =>
        cases failure <;> exact iff_of_false (fun hnone => by cases hnone) (fun h => by cases h)
      | argument | moduleNotFound | unreadable | malformed | evaluation =>
        exact iff_of_false (fun hnone => by cases hnone) (fun h => by cases h)
      | _ => cases h
  · cases unresolved with
    | noWorkingDirectory => exact iff_of_false (fun hnone => by cases hnone) (fun h => by cases h)
    | nulInPath => exact iff_of_true rfl .nulInPath
    | circularLinks path => exact iff_of_true rfl (.circularLinks path)

/-! ## Serving a request -/

theorem keeps_absolutePath (path : String) : Keeps hostless (absolutePath path) := by
  refine obeys_get.bind (fun m _ => ?_)
  dsimp only
  split
  · exact obeys_pure trivial
  · exact obeys_fail (Or.inr ⟨_, rfl⟩)

theorem keeps_serve (hexec : ∀ program, Obeys hostless hostless.value (exec program))
    (request : Request) : Keeps hostless (serve exec request) := by
  have hmodules (names : List (Option String)) :
      Keeps hostless (names.forM (fun name => discard (requireOrFail exec (flagValue name)))) := by
    induction names with
    | nil => exact obeys_pure trivial
    | cons name names ih =>
      exact (keeps_requireOrFail bears_hostless hexec _).discard.bind (fun _ _ => ih)
  refine (hmodules request.modules).bind (fun _ _ => ?_)
  split
  · exact obeys_pure trivial
  · refine (keeps_absolutePath _).bind (fun path _ =>
      (keeps_record bears_hostless rfl).bind (fun _ _ => obeys_get.bind (fun m _ => ?_)))
    split
    · exact obeys_pure trivial
    · exact (obeys_loadScript bears_hostless hexec path).keeps.discard.bind
        (fun _ _ => obeys_pure trivial)

/-! ## What is done -/

/-- The modules are required one after another, and each is loaded or was loaded before. -/
inductive Loads (exec : Execute) : Machine → List (Option String) → Machine → Prop
  | nil {m : Machine} : Loads exec m [] m
  | cons {m n o : Machine} {name : Option String} {names : List (Option String)}
      {requirement : Requirement}
      (required : (require exec (flagValue name)).on m = (.ok requirement, n))
      (found : requirement.module?.isSome) (rest : Loads exec n names o) :
      Loads exec m (name :: names) o

/-- The script is a regular file, and it runs to its end. -/
def Runs (exec : Execute) (file : String) (m : Machine) : Prop :=
  ∃ path value after, (absolutePath file).on m = (.ok path, m) ∧ m.system.isFile path ∧
    (loadScript exec path).on (m.record (.consulted .probe path)) = (.ok value, after)

theorem on_requireOrFail_ok {value : Value} {m n : Machine} {requirement : Requirement} :
    (requireOrFail exec value).on m = (.ok requirement, n) ↔
      (require exec value).on m = (.ok requirement, n) ∧ requirement.module?.isSome := by
  unfold requireOrFail
  rcases h : (require exec value).on m with ⟨stop | got, after⟩
  · rw [on_bind_error h]
    exact iff_of_false (fun heq => by cases heq) (fun heq => by cases heq.1)
  · rw [on_bind_ok h]
    cases got with
    -- A module that is not found stops the program here, while `require` comes back.
    | notFound s =>
      rw [on_bind_ok (on_candidates s.name after)]
      refine iff_of_false (fun heq => by cases heq) ?_
      rintro ⟨heq, hfound⟩
      cases heq
      cases hfound
    | alreadyLoaded r =>
      refine ⟨fun heq => ⟨heq, ?_⟩, fun heq => heq.1⟩
      cases heq
      rfl
    | resolved r =>
      refine ⟨fun heq => ⟨heq, ?_⟩, fun heq => heq.1⟩
      cases heq
      rfl

/-- The modules of a request come to their end exactly if each of them is loaded. -/
theorem on_forM_require_ok (names : List (Option String)) {m o : Machine} :
    (names.forM (fun name => discard (requireOrFail exec (flagValue name)))).on m = (.ok (), o) ↔
      Loads exec m names o := by
  induction names generalizing m with
  | nil =>
    constructor
    · intro heq
      cases heq
      exact .nil
    · rintro ⟨⟩
      rfl
  | cons name names ih =>
    have hcons : (name :: names).forM (fun name => discard (requireOrFail exec (flagValue name))) =
        (discard (requireOrFail exec (flagValue name)) >>= fun _ =>
          names.forM (fun name => discard (requireOrFail exec (flagValue name)))) := rfl
    rw [hcons, on_bind_eq_ok]
    constructor
    · rintro ⟨⟨⟩, n, hfirst, hrest⟩
      obtain ⟨requirement, hrequire⟩ := on_discard_ok.1 hfirst
      obtain ⟨hrequired, hfound⟩ := on_requireOrFail_ok.1 hrequire
      exact .cons hrequired hfound (ih.1 hrest)
    · rintro (⟨⟩ | ⟨hrequired, hfound, hrest⟩)
      exact ⟨(), _, on_discard_ok.2 ⟨_, on_requireOrFail_ok.2 ⟨hrequired, hfound⟩⟩, ih.2 hrest⟩

theorem scriptObstacle?_eq_none_iff (system : System) (path : String) :
    scriptObstacle? system path = none ↔ system.isFile path := by
  unfold scriptObstacle? System.isFile FileSystem.isFile
  rcases system.files.find system.place? (tidy path.toList) with obstacle | node
  · cases obstacle <;> exact iff_of_false (fun h => by cases h) (fun h => by cases h)
  · cases node with
    | file file => exact iff_of_true rfl rfl
    | directory => exact iff_of_false (fun h => by cases h) (fun h => by cases h)

theorem on_absolutePath (path : String) (m : Machine) : ((absolutePath path).on m).2 = m := by
  unfold absolutePath
  rw [on_get_bind]
  dsimp only
  split <;> rfl

def serveFile (exec : Execute) : Option String → Action (Option String)
  | none => pure none
  | some file => do
    let path ← absolutePath file
    record (.consulted .probe path)
    match scriptObstacle? (← get).system path with
    | some complaint => return some complaint
    | none => do
      discard (loadScript exec path)
      return none

theorem serve_eq (exec : Execute) (request : Request) : serve exec request =
    (request.modules.forM (fun name => discard (requireOrFail exec (flagValue name))) >>= fun _ =>
      serveFile exec request.file) := by
  unfold serve
  cases request.file <;> rfl

theorem on_serveFile_ok_none {file : Option String} {m : Machine} :
    (∃ after, (serveFile exec file).on m = (.ok none, after)) ↔ ∀ f ∈ file, Runs exec f m := by
  cases file with
  | none => exact iff_of_true ⟨m, rfl⟩ (fun f hf => by cases hf)
  | some f =>
    have hone : (∀ g ∈ some f, Runs exec g m) ↔ Runs exec f m := by simp
    rw [hone]
    unfold serveFile Runs
    constructor
    · rintro ⟨after, h⟩
      obtain ⟨path, n, hpath, h⟩ := on_bind_eq_ok.1 h
      obtain rfl : m = n := by rw [← on_absolutePath f m, hpath]
      rw [on_record_bind, on_get_bind, Machine.system_record] at h
      cases hobstacle : scriptObstacle? m.system path with
      | some complaint =>
        rw [hobstacle] at h
        cases h
      | none =>
        rw [hobstacle] at h
        obtain ⟨⟨⟩, n, hload, -⟩ := on_bind_eq_ok.1 h
        obtain ⟨value, hvalue⟩ := on_discard_ok.1 hload
        exact ⟨path, value, n, hpath, (scriptObstacle?_eq_none_iff _ _).1 hobstacle, hvalue⟩
    · rintro ⟨path, value, after, hpath, hfile, hload⟩
      refine ⟨after, on_bind_eq_ok.2 ⟨path, m, hpath, ?_⟩⟩
      rw [on_record_bind, on_get_bind, Machine.system_record,
        (scriptObstacle?_eq_none_iff _ _).2 hfile]
      exact on_bind_eq_ok.2 ⟨(), after, on_discard_ok.2 ⟨value, hload⟩, rfl⟩

/-- There is nothing to complain about exactly if each module is loaded, and then the script runs
to its end. -/
theorem on_serve_ok_none {request : Request} {m : Machine} :
    (∃ after, (serve exec request).on m = (.ok none, after)) ↔
      ∃ n, Loads exec m request.modules n ∧ ∀ file ∈ request.file, Runs exec file n := by
  rw [serve_eq]
  constructor
  · rintro ⟨after, h⟩
    obtain ⟨⟨⟩, n, hmodules, hfile⟩ := on_bind_eq_ok.1 h
    exact ⟨n, (on_forM_require_ok _).1 hmodules, on_serveFile_ok_none.1 ⟨after, hfile⟩⟩
  · rintro ⟨n, hloads, hruns⟩
    obtain ⟨after, hfile⟩ := on_serveFile_ok_none.2 hruns
    exact ⟨after, on_bind_eq_ok.2 ⟨(), n, (on_forM_require_ok _).2 hloads, hfile⟩⟩

/-! ## The exit status -/

/-- A loader that serves the request starts in this state. -/
def Ready (system : System) (request : Request) (ready : Machine) : Prop :=
  (start request.settings).on (Machine.blank system) = (.ok (), ready)

/-- Something is asked for. -/
def Request.Asks (request : Request) : Prop := request.file.isSome ∨ request.modules ≠ []

/-- Something is asked for, each module is loaded, and then the script runs to its end. -/
def Succeeds (depth : Nat) (system : System) (request : Request) : Prop :=
  request.Asks ∧ ∃ ready n, Ready system request ready ∧
    Loads (execute depth) ready request.modules n ∧
    ∀ file ∈ request.file, Runs (execute depth) file n

/-- The directory of the program cannot be told, or what is asked for comes to a failure that is
not told. -/
def Crashes (depth : Nat) (system : System) (request : Request) : Prop :=
  request.Asks ∧ ((∃ fault, system.programDirectory = .error fault) ∨
    ∃ ready stop, Ready system request ready ∧
      ((serve (execute depth) request).on ready).1 = .error stop ∧ Escapes stop)

/-- What is asked for comes to a string that is no text. -/
def LeavesOpen (depth : Nat) (system : System) (request : Request) : Prop :=
  ∃ ready, Ready system request ready ∧
    ((serve (execute depth) request).on ready).1 = .error .brokenText

/-- A failed request is answered by the usage when nothing is asked for, and by a complaint about
the failure otherwise. -/
def Complains (depth : Nat) (system : System) (request : Request) (errors : String) : Prop :=
  (¬ request.Asks ∧ errors = usage) ∨
    ∃ ready shown text, Ready system request ready ∧ errors = shown ++ complain text ∧
      (((serve (execute depth) request).on ready).1 = .ok (some text) ∨
        ∃ stop color, ((serve (execute depth) request).on ready).1 = .error stop ∧
          complaintOf? color stop.report = some text)

section Response
variable (depth : Nat) {system : System} {request : Request}

theorem ready_or_error (system : System) (request : Request) :
    (∃ ready, Ready system request ready ∧ Hostless ready ∧
        ¬ ∃ fault, system.programDirectory = .error fault) ∨
      (∃ stop after, (start request.settings).on (Machine.blank system) = (.error stop, after)) ∧
        ∃ fault, system.programDirectory = .error fault := by
  obtain ⟨notes, hstart⟩ := on_start request.settings (Machine.blank system)
  cases hdirectory : system.programDirectory with
  | ok directory =>
    have hexe : request.settings.exeDirIn (Machine.blank system).system = .ok directory :=
      hdirectory
    rw [hexe] at hstart
    exact Or.inl ⟨_, hstart, hostless_restart _ _, fun ⟨fault, h⟩ => by cases h⟩
  | error fault =>
    have hexe : request.settings.exeDirIn (Machine.blank system).system = .error fault :=
      hdirectory
    rw [hexe] at hstart
    exact Or.inr ⟨⟨_, _, hstart⟩, fault, rfl⟩

theorem Ready.eq {ready other : Machine} (h : Ready system request ready)
    (h' : Ready system request other) : other = ready :=
  (Prod.mk.inj (h'.symm.trans h)).2

theorem observe_of_on {α : Type} {a : Action α} {m after : Machine} {result : Except Stop α}
    (h : a.on m = (result, after)) :
    observe a m = (⟨result, after.since m, usesColor after.system.environment⟩, after) := by
  have hrun : a.run.run m = (result, after) := h
  unfold observe
  rw [hrun]

/-- How a request ends once the loader is ready. -/
theorem respondTo_of_ready {ready : Machine} (h : Ready system request ready) :
    let response := respondTo depth system request
    match ((serve (execute depth) request).on ready).1 with
    | .ok none => response.exit = .ok 0
    | .ok (some text) => response.exit = .ok 1 ∧ ∃ shown, response.errors = shown ++ complain text
    | .error stop => ∃ color, match complaintOf? color stop.report with
      | some text => response.exit = .ok 1 ∧ ∃ shown, response.errors = shown ++ complain text
      | none => response.exit = .error stop.report := by
  unfold respondTo
  rw [observe_of_on h]
  dsimp only
  rcases hserve : (serve (execute depth) request).on ready with ⟨stop | complaint, after⟩
  · rw [observe_of_on hserve]
    refine ⟨usesColor after.system.environment, ?_⟩
    dsimp only
    cases complaintOf? (usesColor after.system.environment) stop.report with
    | none => rfl
    | some text => exact ⟨rfl, _, rfl⟩
  · rw [observe_of_on hserve]
    cases complaint with
    | none => rfl
    | some text => exact ⟨rfl, _, rfl⟩

theorem not_leavesOpen {status : Nat} (h : (respondTo depth system request).exit = .ok status) :
    ¬ LeavesOpen depth system request := by
  rintro ⟨ready, hready, hserve⟩
  have hends := respondTo_of_ready depth hready
  rw [hserve] at hends
  obtain ⟨color, hexit⟩ := hends
  cases h.symm.trans hexit

theorem respondTo_of_error {stop : Stop} {after : Machine}
    (h : (start request.settings).on (Machine.blank system) = (.error stop, after)) :
    (respondTo depth system request).exit = .error stop.report := by
  unfold respondTo
  rw [observe_of_on h]

theorem succeeds_iff {ready : Machine} (h : Ready system request ready) :
    Succeeds depth system request ↔
      request.Asks ∧ ((serve (execute depth) request).on ready).1 = .ok none := by
  have hserve : (∃ after, (serve (execute depth) request).on ready = (.ok none, after)) ↔
      ((serve (execute depth) request).on ready).1 = .ok none :=
    ⟨fun ⟨after, hafter⟩ => by rw [hafter], fun hnone => ⟨_, Prod.ext hnone rfl⟩⟩
  rw [← hserve, on_serve_ok_none]
  refine and_congr_right (fun _ => ?_)
  constructor
  · rintro ⟨other, n, hother, hloads, hruns⟩
    rw [h.eq hother] at hloads
    exact ⟨n, hloads, hruns⟩
  · rintro ⟨n, hloads, hruns⟩
    exact ⟨ready, n, h, hloads, hruns⟩

theorem crashes_iff {ready : Machine} (h : Ready system request ready)
    (hdirectory : ¬ ∃ fault, system.programDirectory = .error fault) :
    Crashes depth system request ↔ request.Asks ∧
      ∃ stop, ((serve (execute depth) request).on ready).1 = .error stop ∧ Escapes stop := by
  refine and_congr_right (fun _ => ?_)
  constructor
  · rintro (hfault | ⟨other, stop, hother, hstop, hescapes⟩)
    · exact absurd hfault hdirectory
    · rw [h.eq hother] at hstop
      exact ⟨stop, hstop, hescapes⟩
  · rintro ⟨stop, hstop, hescapes⟩
    exact Or.inr ⟨ready, stop, h, hstop, hescapes⟩

/-- A response is a success, a complaint or a crash. -/
inductive Verdict (depth : Nat) (system : System) (request : Request) (response : Response) : Prop
  | success (exit : response.exit = .ok 0) (succeeds : Succeeds depth system request)
      (safe : ¬ Crashes depth system request)
  | complaint (exit : response.exit = .ok 1) (fails : ¬ Succeeds depth system request)
      (safe : ¬ Crashes depth system request)
      (complains : Complains depth system request response.errors)
  | crash {report : Report} (exit : response.exit = .error report)
      (fails : ¬ Succeeds depth system request) (crashes : Crashes depth system request)

/-- The verdict on a request that a loader is ready for is that on serving it. -/
theorem verdict_of_ready (asks : request.Asks) {ready : Machine}
    (h : Ready system request ready) (hhostless : Hostless ready)
    (hdirectory : ¬ ∃ fault, system.programDirectory = .error fault)
    (settled : ¬ LeavesOpen depth system request) :
    Verdict depth system request (respondTo depth system request) := by
  have hends := respondTo_of_ready depth h
  have hsucceeds := succeeds_iff depth h
  have hcrashes := crashes_iff depth h hdirectory
  have hkeeps := keeps_serve (obeys_execute bears_hostless depth) request ready hhostless
  dsimp only at hends
  -- Which failures are told is known only of those that can be, hence `hkeeps`.
  rcases hresult : ((serve (execute depth) request).on ready).1 with stop | complaint
  · rw [hresult] at hends hsucceeds hcrashes
    have hfails : ¬ Succeeds depth system request := fun h => by cases (hsucceeds.1 h).2
    obtain ⟨color, hends⟩ := hends
    have hescapes := complaintOf?_eq_none_iff color (hkeeps.stop stop hresult)
      (fun hbroken => settled ⟨ready, h, hbroken ▸ hresult⟩)
    cases hcomplaint : complaintOf? color stop.report with
    | none =>
      rw [hcomplaint] at hends
      exact .crash hends hfails (hcrashes.2 ⟨asks, stop, rfl, hescapes.1 hcomplaint⟩)
    | some text =>
      rw [hcomplaint] at hends
      obtain ⟨hexit, shown, herrors⟩ := hends
      refine .complaint hexit hfails (fun hcrash => ?_) ?_
      · obtain ⟨-, other, heq, hescape⟩ := hcrashes.1 hcrash
        rw [← Except.error.inj heq] at hescape
        rw [hescapes.2 hescape] at hcomplaint
        cases hcomplaint
      · exact Or.inr ⟨ready, shown, text, h, herrors, Or.inr ⟨stop, color, hresult, hcomplaint⟩⟩
  · rw [hresult] at hends hsucceeds hcrashes
    have hsafe : ¬ Crashes depth system request := by
      intro hcrash
      obtain ⟨-, stop, heq, -⟩ := hcrashes.1 hcrash
      cases heq
    cases complaint with
    | none => exact .success hends (hsucceeds.2 ⟨asks, rfl⟩) hsafe
    | some text =>
      obtain ⟨hexit, shown, herrors⟩ := hends
      refine .complaint hexit (fun h => by cases (hsucceeds.1 h).2) hsafe ?_
      exact Or.inr ⟨ready, shown, text, h, herrors, Or.inl hresult⟩

theorem verdict_of_error (asks : request.Asks) {stop : Stop} {after : Machine}
    (h : (start request.settings).on (Machine.blank system) = (.error stop, after))
    (hdirectory : ∃ fault, system.programDirectory = .error fault) :
    Verdict depth system request (respondTo depth system request) := by
  refine .crash (respondTo_of_error depth h) ?_ ⟨asks, Or.inl hdirectory⟩
  rintro ⟨-, ready, n, hready, -⟩
  cases h.symm.trans hready

end Response

theorem verdict_respondWithin (depth : Nat) (system : System) {arguments : List String}
    {request : Request} (accepted : Request.ofArguments arguments = .ok request)
    (settled : ¬ LeavesOpen depth system request) :
    Verdict depth system request (respondWithin depth system arguments) := by
  unfold respondWithin
  rw [accepted]
  dsimp only
  by_cases asks : request.Asks
  · have hasks : ¬ (request.file.isNone && request.modules.isEmpty) := by
      rcases asks with hfile | hmodules
      · simp [Option.isSome_iff_ne_none.1 hfile]
      · simp [hmodules]
    rw [if_neg hasks]
    rcases ready_or_error system request with
      ⟨ready, h, hhostless, hdirectory⟩ | ⟨⟨stop, after, h⟩, hdirectory⟩
    · exact verdict_of_ready depth asks h hhostless hdirectory settled
    · exact verdict_of_error depth asks h hdirectory
  · have hnothing : request.file.isNone && request.modules.isEmpty := by
      simpa [Request.Asks] using asks
    rw [if_pos hnothing]
    exact .complaint rfl (fun h => asks h.1) (fun h => asks h.1) (Or.inl ⟨asks, rfl⟩)

/-- A system with a script that prints and one that loads a path with a NUL. -/
def shell : System :=
  let bare := { System.bare (some "/work") with arguments := ["/opt/app/bin/app"] }
  let script (text : String) : Node := .file ⟨some (Text.Utf8.encode text.toList), .opens none none⟩
  (bare.write "b.lps" (script "Print(1)")).write "s.lps" (script "Load(\"a\\0b\")")

theorem exists_report {response : Response} {text : String}
    (h : (match response.exit with
      | .error report => report.message false == text
      | .ok _ => false) = true) :
    ∃ report, response.exit = .error report ∧ report.message false = text := by
  cases hexit : response.exit with
  | ok status =>
    rw [hexit] at h
    cases h
  | error report =>
    rw [hexit] at h
    exact ⟨report, rfl, beq_iff_eq.1 h⟩

end CommandLine

end ModuleLoader
