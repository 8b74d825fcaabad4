import Mathlib.Logic.Function.Iterate
import ModuleLoader.Proofs.Leaks
import ModuleLoader.Proofs.Lookup
import ModuleLoader.Proofs.Require

/-!
# Libraries that are rejected

A library that cannot be opened, or that has no entry point, ends the search for its module: no
other candidate is tried, nothing of the attempt stays behind, and so the next attempt ends in the
same way.

* `Machine.rejection?` : why the library at a path is rejected, if it is;
* `Machine.refusal`, `Machine.rejection` : what the load of a rejected library tells, and what a
  require that comes to it does;
* `on_installLibrary_rejected`, `on_loadCandidate_rejected` : the load of a rejected library;
* `Machine.Rejects`, `Rejected` : the states in which a symbol has such a library, and what a
  require does in them;
* `Rejects.rejected`, `Rejects.again` : it does that, and leads to such a state again;
* `next_not_mem_opened` : the handle of the next library is a fresh one;
* `require_rejected` : what becomes of a require at any moment of a run, and of any further ones.
-/

namespace ModuleLoader

open ModuleLoader.Action

/-! ## Why a library is rejected -/

/-- Why the library at a path is rejected, if it is: the file cannot be opened, or what it holds
has no entry point. -/
def Machine.rejection? (m : Machine) (path : String) : Option LibraryFailure :=
  match m.system.openImage path with
  | .error obstacle => some (.openFailed (openingDiagnostic path obstacle))
  | .ok (.refuses diagnostic) => some (.openFailed diagnostic)
  | .ok (.opens entryPoint _) =>
    if entryPoint = some m.configuration.entryPoint then none else some .noEntryPoint

/-! ## What a rejection tells -/

/-- What is told of a rejected library once its file was consulted. -/
def Machine.refusal (m : Machine) (path : String) : LibraryFailure → List Event
  | .openFailed diagnostic => [.noted (.openFailure diagnostic)]
  | .noEntryPoint =>
    [.library .opened path (m.next path).handle, .library .closed path (m.next path).handle]

/-- What a require tells that looks for the candidates up to a rejected library. -/
def Machine.rejection (m : Machine) (s : Symbol) (before : List Candidate) (c : Candidate)
    (failure : LibraryFailure) : List Event :=
  m.settling ++ probes (before ++ [c]) ++
    .chosen s c :: .consulted .load c.path :: m.refusal c.path failure

def Event.consulted? : Event → Option (FileUse × String)
  | .consulted purpose path => some (purpose, path)
  | _ => none

section
variable {m : Machine} {s : Symbol} {before after : List Candidate} {c : Candidate}
  {failure : LibraryFailure}

theorem refusal_replay (events : List Event) (h : handlesIn .opened events = []) (path : String) :
    (m.replay events).refusal path failure = m.refusal path failure := by
  cases failure with
  | openFailed diagnostic => rfl
  | noEntryPoint =>
    have hcount : (m.replay events).openedCount = m.openedCount := by
      rw [Machine.openedCount_replay, h]
      rfl
    rw [Machine.refusal, Machine.refusal, Machine.next, Machine.next, hcount]

theorem on_installLibrary_rejected (exec : Execute) {path : String}
    (present : m.system.isFile path) (h : m.rejection? path = some failure) :
    (installLibrary exec path).on m = (.error (.fault (.library path failure)),
      m.replay (.consulted .load path :: m.refusal path failure)) := by
  have hnul := System.openImage_ne_nul present
  rw [on_installLibrary]
  unfold Machine.rejection? at h
  cases himage : m.system.openImage path with
  | error obstacle =>
    rw [himage] at h hnul
    cases h
    cases obstacle with
    | nulInPath => exact absurd rfl hnul
    | _ => rfl
  | ok image =>
    rw [himage] at h
    cases image with
    | refuses diagnostic =>
      cases h
      rfl
    | opens entryPoint install =>
      dsimp only at h ⊢
      split at h
      · cases h
      · rename_i hentry
        cases h
        rw [if_neg hentry]
        rfl

theorem rejection?_replay (m : Machine) (events : List Event) (path : String) :
    (m.replay events).rejection? path = m.rejection? path := by
  simp only [Machine.rejection?, Machine.system_replay, Machine.configuration_replay]

/-- Nothing is recorded for a library that was chosen and is rejected. -/
theorem on_loadCandidate_rejected (exec : Execute) {path : String}
    (present : m.system.isFile path) (h : m.rejection? path = some failure) :
    (loadCandidate exec s ⟨path, .nativeLibrary⟩).on m =
      (.error (.fault (.library path failure)), m.replay (.chosen s ⟨path, .nativeLibrary⟩ ::
        .consulted .load path :: m.refusal path failure)) := by
  have hinstall := @on_installLibrary_rejected (m.replay [.chosen s ⟨path, .nativeLibrary⟩])
    failure exec path (by rwa [Machine.system_replay]) (by rwa [rejection?_replay])
  rw [refusal_replay _ rfl, Machine.replay_cons, Machine.replay_nil] at hinstall
  rw [on_loadCandidate_library, hinstall]
  rfl

/-! ## States with a rejected library -/

/-- The symbol has no record, and the first of its candidates that exists is a library that is
rejected. -/
structure Machine.Rejects (m : Machine) (s : Symbol) (before : List Candidate) (c : Candidate)
    (after : List Candidate) (failure : LibraryFailure) : Prop where
  new : m.registry.find? s = none
  files : m.files s.name = before ++ c :: after
  absent : ∀ d ∈ before, ¬ m.system.isFile d.path
  present : m.system.isFile c.path
  native : c.kind = .nativeLibrary
  reason : m.rejection? c.path = some failure

/-- What a require of the symbol does in such a state. -/
structure Rejected (s : Symbol) (before : List Candidate) (c : Candidate)
    (failure : LibraryFailure) (m : Machine) : Prop where
  /-- It fails for the library, however it is asked for and whatever could run programs. -/
  required : ∀ exec value, value.symbol? = some s →
    ∀ action ∈ [require exec value, requireOrFail exec value],
      action.on m =
        (.error (.fault (.library c.path failure)), m.replay (m.rejection s before c failure))
  called : ∀ exec value, value.symbol? = some s →
    ∀ function ∈ [Builtin.require, Builtin.tryRequire],
      (function.call exec [value]).on m =
        (.error (.fault (.library c.path failure)), m.replay (m.rejection s before c failure))
  /-- The candidates up to the library are looked for, and only the library is loaded. -/
  consulted : (m.rejection s before c failure).filterMap Event.consulted? =
    before.map (fun d => (.probe, d.path)) ++ [(.probe, c.path), (.load, c.path)]
  registry : (m.replay (m.rejection s before c failure)).registry = m.registry
  globals : (m.replay (m.rejection s before c failure)).globals = m.globals
  output : printedText (m.rejection s before c failure) = ""
  /-- A library that was opened is closed under the same handle. -/
  libraries : libraryEvents (m.rejection s before c failure) =
    match failure with
    | .openFailed _ => []
    | .noEntryPoint =>
      [(.opened, c.path, m.openedCount + 1), (.closed, c.path, m.openedCount + 1)]

theorem files_replay {events : List Event} (h : ∀ directories, .settled directories ∈ events →
    directories = m.searchPath.getD m.configuration.searchPath) (name : String) :
    (m.replay events).files name = m.files name := by
  have hpath : (m.replay events).searchPath.getD m.configuration.searchPath =
      m.searchPath.getD m.configuration.searchPath := by
    induction events generalizing m with
    | nil => rfl
    | cons event events ih =>
      have hrecord : (m.record event).searchPath.getD m.configuration.searchPath =
          m.searchPath.getD m.configuration.searchPath := by
        cases event with
        | settled directories => exact h directories List.mem_cons_self
        | _ => rfl
      have hrest := @ih (m.record event) (fun directories hd => by
        rw [Machine.configuration_record, hrecord]
        exact h directories (List.mem_cons_of_mem _ hd))
      rw [Machine.configuration_record] at hrest
      rw [Machine.replay_cons, hrest, hrecord]
  unfold Machine.files
  rw [Machine.configuration_replay, hpath]

/-! ## What is left of a rejection -/

/-- The search for the library tells nothing that quiet events do not tell. -/
theorem filterMap_rejection {α : Type} {f : Event → Option α}
    (hf : ∀ event, event.isQuiet → f event = none) :
    (m.rejection s before c failure).filterMap f =
      (Event.chosen s c :: m.refusal c.path failure).filterMap f := by
  have hsearch : (m.settling ++ probes (before ++ [c])).filterMap f = [] :=
    List.filterMap_eq_nil_iff.2 (fun event h => hf event (quiet_search (before ++ [c]) h))
  have hload : f (.consulted .load c.path) = none := hf _ rfl
  rw [Machine.rejection, List.filterMap_append, hsearch, List.nil_append]
  simp only [List.filterMap_cons, hload]

theorem printedText_rejection : printedText (m.rejection s before c failure) = "" := by
  unfold printedText
  rw [filterMap_rejection (fun event h => by cases event <;> first | rfl | cases h)]
  cases failure <;> rfl

theorem libraryEvents_rejection : libraryEvents (m.rejection s before c failure) =
    match failure with
    | .openFailed _ => []
    | .noEntryPoint =>
      [(.opened, c.path, m.openedCount + 1), (.closed, c.path, m.openedCount + 1)] := by
  unfold libraryEvents
  rw [filterMap_rejection (fun event h => by cases event <;> first | rfl | cases h)]
  cases failure <;> rfl

theorem consulted_probes (candidates : List Candidate) :
    (probes candidates).filterMap Event.consulted? =
      candidates.map (fun d => (.probe, d.path)) := by
  induction candidates with
  | nil => rfl
  | cons d candidates ih => exact congrArg _ ih

theorem consulted_rejection : (m.rejection s before c failure).filterMap Event.consulted? =
    before.map (fun d => (.probe, d.path)) ++ [(.probe, c.path), (.load, c.path)] := by
  have hsettling : m.settling.filterMap Event.consulted? = [] := by
    unfold Machine.settling
    split <;> rfl
  have hload : (Event.chosen s c :: .consulted .load c.path ::
      m.refusal c.path failure).filterMap Event.consulted? = [(.load, c.path)] := by
    cases failure <;> rfl
  rw [Machine.rejection, List.filterMap_append, List.filterMap_append, hsettling,
    consulted_probes, hload]
  simp

theorem replay_rejection :
    (m.replay (m.rejection s before c failure)).registry = m.registry ∧
      (m.replay (m.rejection s before c failure)).globals = m.globals := by
  obtain ⟨hregistry, hglobals, -⟩ :=
    Machine.replay_quiet (m := m) (fun _ h => quiet_search (m := m) (before ++ [c]) h)
  have hload (n : Machine) :
      let loaded := n.replay (.chosen s c :: .consulted .load c.path :: m.refusal c.path failure)
      loaded.registry = n.registry ∧ loaded.globals = n.globals := by
    cases failure <;> exact ⟨rfl, rfl⟩
  obtain ⟨hr, hg⟩ := hload (m.replay (m.settling ++ probes (before ++ [c])))
  rw [Machine.rejection, Machine.replay_append]
  exact ⟨hr.trans hregistry, hg.trans hglobals⟩

theorem settled_of_mem_rejection {directories : List SearchDirectory}
    (h : .settled directories ∈ m.rejection s before c failure) :
    directories = m.searchPath.getD m.configuration.searchPath := by
  have hprobes : .settled directories ∉ probes (before ++ [c]) := by
    simp [probes]
  have hload : .settled directories ∉
      Event.chosen s c :: .consulted .load c.path :: m.refusal c.path failure := by
    cases failure <;> simp [Machine.refusal]
  have hsettling : .settled directories ∈ m.settling := by
    rcases List.mem_append.1 h with h | h
    · exact (List.mem_append.1 h).resolve_right hprobes
    · exact absurd h hload
  unfold Machine.settling at hsettling
  split at hsettling
  · cases hsettling
  · rename_i hnone
    rw [hnone]
    simpa using hsettling

theorem handlesIn_search (m : Machine) (candidates : List Candidate) :
    handlesIn .opened (m.settling ++ probes candidates) = [] := by
  refine List.filterMap_eq_nil_iff.2 (fun event he => ?_)
  have hquiet := quiet_search candidates he
  cases event <;> first | rfl | cases hquiet

namespace Machine.Rejects

/-- The require looks for the library, chooses it and fails for it. -/
theorem on_requireSymbol (h : m.Rejects s before c after failure) (exec : Execute) :
    (requireSymbol exec s).on m =
      (.error (.fault (.library c.path failure)), m.replay (m.rejection s before c failure)) := by
  obtain ⟨path, kind⟩ := c
  obtain rfl : kind = .nativeLibrary := h.native
  have hfind : (m.files s.name).find? (fun d => m.system.isFile d.path) =
      some ⟨path, .nativeLibrary⟩ := by
    rw [h.files]
    exact find?_of_first h.absent h.present
  have hfound := on_requireSymbol_found exec h.new hfind
  rw [h.files, tried_of_first h.absent h.present] at hfound
  have hload := @on_loadCandidate_rejected
    (m.replay (m.settling ++ probes (before ++ [⟨path, .nativeLibrary⟩]))) s failure exec path
    (by rw [Machine.system_replay]; exact h.present)
    (by rw [rejection?_replay]; exact h.reason)
  rw [refusal_replay _ (handlesIn_search m _), ← Machine.replay_append] at hload
  rw [hfound, on_map, hload]
  rfl

theorem again (h : m.Rejects s before c after failure) :
    (m.replay (m.rejection s before c failure)).Rejects s before c after failure where
  new := by
    rw [(replay_rejection).1]
    exact h.new
  files := by
    rw [files_replay (fun _ => settled_of_mem_rejection)]
    exact h.files
  absent := by
    rw [Machine.system_replay]
    exact h.absent
  present := by
    rw [Machine.system_replay]
    exact h.present
  native := h.native
  reason := by
    rw [rejection?_replay]
    exact h.reason

theorem rejected (h : m.Rejects s before c after failure) : Rejected s before c failure m := by
  have hrequire (exec : Execute) (value : Value) (hs : value.symbol? = some s) :
      (require exec value).on m = (.error (.fault (.library c.path failure)),
        m.replay (m.rejection s before c failure)) := by
    rw [require_eq exec hs, h.on_requireSymbol exec]
  have horFail (exec : Execute) (value : Value) (hs : value.symbol? = some s) :
      (requireOrFail exec value).on m = (.error (.fault (.library c.path failure)),
        m.replay (m.rejection s before c failure)) :=
    on_bind_error (hrequire exec value hs) _
  refine ⟨?_, ?_, consulted_rejection, replay_rejection.1, replay_rejection.2,
    printedText_rejection, libraryEvents_rejection⟩
  · intro exec value hs action haction
    rcases List.mem_pair.1 haction with rfl | rfl
    · exact hrequire exec value hs
    · exact horFail exec value hs
  · intro exec value hs function hfunction
    rcases List.mem_pair.1 hfunction with rfl | rfl
    · change (requirementValue <$> requireOrFail exec value).on m = _
      rw [on_map, horFail exec value hs]
      rfl
    · change (requirementValue <$> require exec value).on m = _
      rw [on_map, hrequire exec value hs]
      rfl

end Machine.Rejects

end

/-! ## Fresh handles -/

/-- The next library gets a handle under which the run has opened none. -/
theorem next_not_mem_opened {settings : Settings} {m x : Machine} {turns : List Turn}
    (hx : x ∈ moments settings m turns) :
    x.openedCount + 1 ∉ handlesIn .opened (x.since m) := by
  rw [← map_fst_instants] at hx
  obtain ⟨i, hi, rfl⟩ := List.mem_map.1 hx
  obtain ⟨before, hagree, hprefix, -⟩ := exists_before hi
  rw [since_of_agree hagree, hagree.openedCount, Machine.openedCount_replay]
  -- Up to this moment the handles are the first of those that the whole run numbers.
  have hrun := (paired_libraryStory settings m turns).handlesOf_opened
  rw [handlesOf_run] at hrun
  have hbefore : handlesIn .opened (before ++ i.2) <+:
      handlesIn .opened ((runTurns settings m turns).flatMap Outcome.events) :=
    hprefix.filterMap _
  have hlength := hbefore.length_le
  rw [hrun, List.prefix_iff_eq_take, List.take_range'_of_length_ge hlength] at hbefore
  rw [hbefore, List.length_range', List.mem_range'_1]
  omega

/-! ## Runs -/

/-- At every moment of a run, a require of a symbol without a record, whose first existing candidate
is a library that is rejected, fails for that library and changes nothing but the trace, and so do
all further ones; a library that it opens gets a fresh handle. -/
theorem require_rejected (settings : Settings) (m : Machine) (configuration : Configuration)
    (turns : List Turn) {x : Machine}
    (hx : x ∈ moments settings (m.restart configuration) turns) {s : Symbol}
    (new : x.registry.find? s = none) {before after : List Candidate} {c : Candidate}
    (hsplit : configuration.candidates s.name = before ++ c :: after)
    (absent : ∀ d ∈ before, ¬ x.system.isFile d.path) (present : x.system.isFile c.path)
    (native : c.kind = .nativeLibrary) {failure : LibraryFailure}
    (reason : x.rejection? c.path = some failure) :
    (∀ n, Rejected s before c failure
      ((fun y => y.replay (y.rejection s before c failure))^[n] x)) ∧
      x.openedCount + 1 ∉ handlesIn .opened (x.since (m.restart configuration)) := by
  have hstart := leads_of_mem_moments hx
  have hfiles : x.files s.name = before ++ c :: after := by
    unfold Machine.files
    rw [hstart.searchPath rfl, hstart.configuration]
    exact hsplit
  have hrejects : x.Rejects s before c after failure :=
    ⟨new, hfiles, absent, present, native, reason⟩
  have hagain (n : Nat) : ((fun y => y.replay (y.rejection s before c failure))^[n] x).Rejects s
      before c after failure := by
    induction n with
    | zero => exact hrejects
    | succ n ih =>
      rw [Function.iterate_succ_apply']
      exact ih.again
  exact ⟨fun n => (hagain n).rejected, next_not_mem_opened hx⟩

/-- A loader in whose system a library without entry point and one that does not open stand before
scripts of the same names. -/
def shadowing : Machine :=
  let bare := System.bare (some "/work")
  let script : Node := .file ⟨some (Text.Utf8.encode "1".toList), .opens none none⟩
  let closed := bare.write "m/a.so" (.file ⟨some [], .opens none none⟩)
  let broken := closed.write "m/b.so" (.file ⟨some [], .refuses "m/b.so: file too short"⟩)
  (Machine.blank ((broken.write "m/a.lps" script).write "m/b.lps" script)).restart
    ⟨some [.named "m"], Extension.standard, "/opt/app/bin", [], standardEntryPoint⟩

/-- The scripts exist and are not tried. -/
theorem require_rejected_shadowing :
    Rejected ⟨"a"⟩ [] ⟨"m/a.so", .nativeLibrary⟩ .noEntryPoint shadowing ∧
      shadowing.system.isFile "m/a.lps" ∧
      Rejected ⟨"b"⟩ [] ⟨"m/b.so", .nativeLibrary⟩ (.openFailed "m/b.so: file too short")
        shadowing ∧
      shadowing.system.isFile "m/b.lps" := by
  have hfirst : shadowing ∈ moments {} shadowing [] := List.mem_singleton_self _
  have ha : shadowing.configuration.candidates "a" =
      [] ++ ⟨"m/a.so", .nativeLibrary⟩ :: [⟨"m/a.lps", .scriptSource⟩] := by
    decide +kernel
  have hb : shadowing.configuration.candidates "b" =
      [] ++ ⟨"m/b.so", .nativeLibrary⟩ :: [⟨"m/b.lps", .scriptSource⟩] := by
    decide +kernel
  refine ⟨(require_rejected {} _ _ [] hfirst (s := ⟨"a"⟩) rfl ha ?_ ?_ rfl ?_).1 0, ?_,
    (require_rejected {} _ _ [] hfirst (s := ⟨"b"⟩) rfl hb ?_ ?_ rfl ?_).1 0, ?_⟩
  · exact fun d hd => absurd hd List.not_mem_nil
  · decide +kernel
  · decide +kernel
  · decide +kernel
  · exact fun d hd => absurd hd List.not_mem_nil
  · decide +kernel
  · decide +kernel
  · decide +kernel

end ModuleLoader
