import Mathlib.Data.Set.Card
import ModuleLoader.Proofs.Lookup
import ModuleLoader.Proofs.Tame
import ModuleLoader.Proofs.Turns

/-!
# Modules that require each other

Modules may require each other in circles. Where they are tame, scripts are nested no deeper than
there are names written out in them: a script has its record before it runs, so that each script
that runs within another one leaves one name less without a record.

* `IsModule`, `Contained` : the programs that a require may load; all of them are tame, and no
  library runs a script;
* `moduleNames`, `finite_moduleNames` : the names that modules require, of which there are finitely
  many;
* `Machine.waiting` : those of the names that have no record;
* `Region` : states of one system in which at most so many names wait, which no event leaves
  (`closed_region`) and in which one name less waits while a script runs (`Region.opening_of_mem`);
* `completes_module`, `completes_requireSymbol_of_lt` : by induction on how many names wait;
* `EndsWithin`, `require_endsWithin` : requires and tame sources come to their end.
-/

namespace ModuleLoader

open ModuleLoader.Action
open Script (Program)

/-! ## The modules of a system -/

/-- The program is that of a script file that may hold a module. -/
def IsModule (configuration : Configuration) (system : System) (program : Program) : Prop :=
  ∃ name path text, ⟨path, .scriptSource⟩ ∈ configuration.candidates name ∧
    system.readText path = .ok text ∧ Script.parse system.names path text = .ok program

/-- Modules are tame, and libraries run no script when they are installed. -/
structure Contained (configuration : Configuration) (system : System) : Prop where
  scripts : ∀ program, IsModule configuration system program → program.isTame
  libraries : ∀ name path entryPoint install,
    ⟨path, .nativeLibrary⟩ ∈ configuration.candidates name →
      system.openImage path = .ok (.opens entryPoint install) → install = none

def moduleNames (configuration : Configuration) (system : System) : Set (List Char) :=
  {key | ∃ program, IsModule configuration system program ∧ ∃ s ∈ program.required, s.key = key}

namespace FileSystem
variable {files : FileSystem} {workingDirectory : Option Place} {path : List Char}

theorem mem_entries_of_find {file : File}
    (h : files.find workingDirectory path = .ok (.file file)) :
    ∃ place, (place, .file file) ∈ files.entries := by
  obtain ⟨place, -, hnode⟩ := find_eq_ok_iff.1 h
  refine ⟨place, ?_⟩
  unfold nodeAt? at hnode
  split at hnode
  · rename_i node hlookup
    cases hnode
    obtain ⟨before, after, hentries, -⟩ := List.lookup_eq_some_iff.1 hlookup
    rw [hentries]
    exact List.mem_append_right _ List.mem_cons_self
  · split at hnode <;> cases hnode

def texts (files : FileSystem) : List (List Char) :=
  files.entries.filterMap (fun entry => match entry.2 with
    | .file ⟨some bytes, _⟩ => (Text.Utf8.decode bytes).toOption.map Text.normalizeNewlines
    | _ => none)

theorem mem_texts_of_readText {text : List Char}
    (h : files.readText workingDirectory path = .ok text) : text ∈ files.texts := by
  unfold readText at h
  cases hfind : files.find workingDirectory (tidy path) with
  | error obstacle =>
      rw [hfind] at h
      cases h
  | ok node =>
      rw [hfind] at h
      match node, hfind, h with
      | .directory, _, h => cases h
      | .file ⟨none, _⟩, _, h => cases h
      | .file ⟨some bytes, image⟩, hfind, h =>
          obtain ⟨place, hentry⟩ := mem_entries_of_find hfind
          refine List.mem_filterMap.2 ⟨_, hentry, ?_⟩
          cases hdecode : Text.Utf8.decode bytes with
          | error fault =>
              simp only [bind, Except.bind, hdecode] at h
              cases h
          | ok decoded =>
              simp only [bind, Except.bind, hdecode] at h
              cases h
              simp [hdecode, Except.toOption]

theorem mem_entries_of_openImage {image : Image}
    (h : files.openImage workingDirectory path = .ok image) :
    ∃ entry ∈ files.entries, ∃ contents, entry.2 = .file ⟨contents, image⟩ := by
  unfold openImage at h
  cases hfind : files.find workingDirectory path with
  | error obstacle =>
      rw [hfind] at h
      cases h
  | ok node =>
      rw [hfind] at h
      cases node with
      | directory => cases h
      | file file =>
          obtain ⟨place, hentry⟩ := mem_entries_of_find hfind
          cases h
          exact ⟨_, hentry, file.contents, rfl⟩

end FileSystem

theorem parse_file {names : Script.CharacterNames} {file : String} {source : List Char}
    {program : Program} (h : Script.parse names file source = .ok program) (other : String) :
    Script.parse names other source = .ok { program with file := other } := by
  unfold Script.parse at h ⊢
  dsimp only at h ⊢
  cases hwritten : Script.assemble (Script.Tokens.ofText source) with
  | error fault =>
      rw [hwritten] at h
      cases h
  | ok written =>
      rw [hwritten] at h
      simp only [bind, Except.bind] at h ⊢
      split at h
      · cases h
      · cases h
        rfl

def sourceNames (names : Script.CharacterNames) (source : List Char) : List (List Char) :=
  match Script.parse names "" source with
  | .ok program => program.required.map Symbol.key
  | .error _ => []

/-- In a system there are finitely many names that modules require. -/
theorem finite_moduleNames (configuration : Configuration) (system : System) :
    (moduleNames configuration system).Finite := by
  refine (List.finite_toSet (system.files.texts.flatMap (sourceNames system.names))).subset ?_
  rintro key ⟨program, ⟨name, path, text, -, htext, hparse⟩, s, hs, rfl⟩
  refine List.mem_flatMap.2 ⟨text, FileSystem.mem_texts_of_readText htext, ?_⟩
  unfold sourceNames
  rw [parse_file hparse ""]
  exact List.mem_map_of_mem hs

/-- A system of which all files are tame scripts and no library runs a script. -/
theorem Contained.of_files (configuration : Configuration) {system : System}
    (scripts : system.files.texts.all (fun text =>
      (Script.parse system.names "" text).toOption.all Program.isTame))
    (libraries : system.files.entries.all (fun entry => match entry.2 with
      | .file ⟨_, .opens _ (some _)⟩ => false
      | _ => true)) : Contained configuration system := by
  constructor
  · rintro program ⟨name, path, text, -, htext, hparse⟩
    have htame := List.all_eq_true.1 scripts text (FileSystem.mem_texts_of_readText htext)
    rw [parse_file hparse ""] at htame
    exact htame
  · intro name path entryPoint install _ himage
    obtain ⟨entry, hentry, contents, hnode⟩ := FileSystem.mem_entries_of_openImage himage
    have hbare := List.all_eq_true.1 libraries entry hentry
    rw [hnode] at hbare
    cases install with
    | none => rfl
    | some source => cases hbare

/-! ## Regions -/

def Machine.waiting (names : Finset (List Char)) (m : Machine) : Finset (List Char) :=
  names.filter (fun key => ∀ r ∈ m.registry.modules, r.symbol.key ≠ key)

/-- A loader with this configuration in this system, where at most so many of the names wait. -/
structure Region (configuration : Configuration) (system : System) (names : Finset (List Char))
    (bound : Nat) (m : Machine) : Prop where
  serves : m.Serves configuration system
  functions : m.HasFunctions
  waiting : (m.waiting names).card ≤ bound

theorem Machine.waiting_subset {m n : Machine} (names : Finset (List Char))
    (h : m.registry.modules <+: n.registry.modules) : n.waiting names ⊆ m.waiting names := by
  intro key hkey
  obtain ⟨hname, hnone⟩ := Finset.mem_filter.1 hkey
  exact Finset.mem_filter.2 ⟨hname, fun r hr => hnone r (h.subset hr)⟩

theorem Region.mono {configuration : Configuration} {system : System}
    {names : Finset (List Char)} {bound more : Nat} {m : Machine} (hle : bound ≤ more)
    (h : Region configuration system names bound m) : Region configuration system names more m :=
  ⟨h.serves, h.functions, h.waiting.trans hle⟩

theorem closed_region (configuration : Configuration) (system : System)
    (names : Finset (List Char)) (bound : Nat) :
    Closed (Region configuration system names bound) := by
  intro m event h hallows
  have hsub := Machine.waiting_subset names (m.prefix_record event)
  refine ⟨closed_serves _ _ m event h.serves hallows, ?_,
    (Finset.card_le_card hsub).trans h.waiting⟩
  unfold Machine.HasFunctions
  rw [Machine.builtins_record]
  exact h.functions

namespace Region
variable {configuration : Configuration} {system : System} {names : Finset (List Char)}
  {bound : Nat} {m : Machine} {s : Symbol}

theorem opening (h : Region configuration system names bound m) (new : m.registry.find? s = none)
    (path : String) : Region configuration system names bound (m.replay (scriptOpening s path)) :=
  (closed_region _ _ _ _).replay h (Course.allowsAll_scriptOpening path new)

/-- Once a script with one of the names was handed over, one name less is waiting. -/
theorem opening_of_mem (h : Region configuration system names bound m)
    (new : m.registry.find? s = none) (path : String) (hs : s.key ∈ names) :
    ∃ less, less < bound ∧
      Region configuration system names less (m.replay (scriptOpening s path)) := by
  have hopening := h.opening new path
  have hsub := Machine.waiting_subset names (m.prefix_replay (scriptOpening s path))
  have hbefore : s.key ∈ m.waiting names := by
    refine Finset.mem_filter.2 ⟨hs, fun r hr hkey => ?_⟩
    exact (Registry.find?_eq_none_iff _ _).1 new r hr ((Symbol.same_iff _ _).2 hkey)
  have hafter : s.key ∉ (m.replay (scriptOpening s path)).waiting names := by
    intro hkey
    have hfound := Course.find?_script path new (Symbol.same_refl s)
    have hmem := List.mem_of_find?_eq_some hfound
    exact (Finset.mem_filter.1 hkey).2 _ hmem rfl
  have hless := Finset.card_lt_card ⟨hsub, fun hsup => hafter (hsup hbefore)⟩
  exact ⟨_, hless.trans_le h.waiting, hopening.serves, hopening.functions, Nat.le_refl _⟩

end Region

/-! ## Programs in a region -/

section Contained
variable {configuration : Configuration} {system : System} {names : Finset (List Char)}
  {bound : Nat} (contained : Contained configuration system)

include contained

/-- A require completes if the scripts that it may hand over do. -/
theorem completes_requireSymbol_region {exec exec' : Execute}
    (hexec : ∀ program, (exec program).Orderly) {s : Symbol}
    (hscript : ∀ m, Region configuration system names bound m → m.registry.find? s = none →
      ∀ path, ⟨path, .scriptSource⟩ ∈ configuration.candidates s.name →
        CompletesFrom (Region configuration system names bound) (loadScript exec path)
          (loadScript exec' path) (m.replay (scriptOpening s path))) :
    Completes (Region configuration system names bound) (requireSymbol exec s)
      (requireSymbol exec' s) := by
  refine completes_requireSymbol (closed_region _ _ _ _) hexec (fun m hm => hm.serves.files s.name)
    (fun c hc m hm new => ?_)
  obtain ⟨path, kind⟩ := c
  cases kind with
  | scriptSource => exact completesFrom_loadCandidate_script new (hscript m hm new path hc)
  | nativeLibrary =>
      refine completesFrom_loadCandidate_library (closed_region _ _ _ _) hexec hm new ?_
      intro entryPoint install himage
      rw [hm.serves.system] at himage
      exact contained.libraries s.name path entryPoint install hc himage

variable (hnames : ∀ program, IsModule configuration system program →
  ∀ s ∈ program.required, s.key ∈ names)

include hnames

/-- A module completes at every depth greater than the number of the names that wait. -/
theorem completes_module {program : Program} (hprogram : IsModule configuration system program)
    {depth more : Nat} (hdepth : bound < depth) (hmore : bound < more) :
    Completes (Region configuration system names bound) (execute depth program)
      (execute more program) := by
  -- A module that is required has one of the names, so that fewer of them wait while it runs.
  induction bound using Nat.strong_induction_on generalizing program depth more with
  | _ bound ih =>
      obtain ⟨depth, rfl⟩ := Nat.exists_eq_add_one_of_ne_zero (Nat.ne_zero_of_lt hdepth)
      obtain ⟨more, rfl⟩ := Nat.exists_eq_add_one_of_ne_zero (Nat.ne_zero_of_lt hmore)
      refine completes_runProgram (closed_region _ _ _ _) (fun _ hm => hm.functions)
        (contained.scripts program hprogram) (fun s hs => ?_)
      refine completes_requireSymbol_region contained (orderly_execute depth) ?_
      intro m hm new path hpath
      obtain ⟨less, hless, hopening⟩ := hm.opening_of_mem new path (hnames program hprogram s hs)
      refine (completesFrom_loadScript (closed_region _ _ _ _) hopening ?_).mono
        (fun _ => Region.mono hless.le)
      intro text required htext hparse
      rw [hopening.serves.system] at htext hparse
      exact ih less hless ⟨s.name, path, text, hpath, htext, hparse⟩ (by omega) (by omega)

/-- So does a require, whatever it names. -/
theorem completes_requireSymbol_of_lt {depth more : Nat} (hdepth : bound < depth)
    (hmore : bound < more) (s : Symbol) :
    Completes (Region configuration system names bound) (requireSymbol (execute depth) s)
      (requireSymbol (execute more) s) := by
  refine completes_requireSymbol_region contained (orderly_execute depth) ?_
  intro m hm new path hpath
  have hopening := hm.opening new path
  refine completesFrom_loadScript (closed_region _ _ _ _) hopening ?_
  intro text program htext hparse
  rw [hopening.serves.system] at htext hparse
  exact completes_module contained hnames ⟨s.name, path, text, hpath, htext, hparse⟩ hdepth hmore

end Contained

/-! ## Moments -/

theorem hasFunctions_restart (m : Machine) (configuration : Configuration) :
    (m.restart configuration).HasFunctions := by
  intro name function hname
  exact Or.inl (Builtin.get?_table_of_ofName? hname)

theorem hasFunctions_perform {settings : Settings} {depth : Nat} {operation : Operation}
    (keeps : operation.startsAfresh = false) {m : Machine} (hm : m.HasFunctions) :
    ((perform settings depth operation).on m).2.HasFunctions := by
  unfold Machine.HasFunctions
  rcases builtins_perform settings depth operation keeps m with h | ⟨s, other, h⟩
  · rw [h]
    exact hm
  · rw [h]
    intro name function hname
    rw [Bindings.get?_set]
    split
    · exact Or.inr ⟨other, rfl⟩
    · exact hm name function hname

theorem hasFunctions_of_mem_passes {m x : Machine} {events : List Event} (hm : m.HasFunctions)
    (hx : x ∈ m.passes events) : x.HasFunctions := by
  induction events generalizing m with
  | nil =>
      obtain rfl := List.mem_singleton.1 hx
      exact hm
  | cons event events ih =>
      rcases List.mem_cons.1 hx with rfl | hx
      · exact hm
      · refine ih ?_ hx
        unfold Machine.HasFunctions
        rw [Machine.builtins_record]
        exact hm

theorem hasFunctions_of_mem_moments {settings : Settings} {m x : Machine} {turns : List Turn}
    (hm : m.HasFunctions) (hx : x ∈ moments settings m turns) : x.HasFunctions := by
  induction turns generalizing m with
  | nil =>
      obtain rfl := List.mem_singleton.1 hx
      exact hm
  | cons t rest ih =>
      rcases List.mem_append.1 hx with hx | hx
      · exact hasFunctions_of_mem_passes hm hx
      · exact ih (hasFunctions_perform t.keeps hm) hx

theorem region_of_mem_moments {settings : Settings} {m x : Machine}
    {configuration : Configuration} {turns : List Turn}
    (hx : x ∈ moments settings (m.restart configuration) turns) (names : Finset (List Char)) :
    Region configuration x.system names names.card x := by
  have hleads := leads_of_mem_moments hx
  refine ⟨⟨?_, hleads.configuration, rfl⟩,
    hasFunctions_of_mem_moments (hasFunctions_restart m configuration) hx,
    Finset.card_filter_le _ _⟩
  obtain ⟨events, hallows, hagree⟩ := hleads
  rw [hagree.searchPath]
  exact hallows.searchPath (fun _ h => by cases h)

/-- The action, in which scripts may be nested to a depth, needs no more than this one: it does not
run out of it, and does the same with more. -/
structure EndsWithin {α : Type} (depth : Nat) (action : Nat → Action α) (m : Machine) : Prop where
  ends : ((action depth).on m).1 ≠ .error .exhausted
  same : ∀ more, depth ≤ more → (action more).on m = (action depth).on m

/-- In a system where modules write out what they require, a require needs to nest scripts no
deeper than there are names, and one more, whatever circles the modules form; and a source of that
kind, which runs itself, needs one more than that. -/
theorem require_endsWithin (settings : Settings) (m : Machine) (configuration : Configuration)
    (turns : List Turn) {x : Machine}
    (hx : x ∈ moments settings (m.restart configuration) turns)
    (contained : Contained configuration x.system) :
    let names := moduleNames configuration x.system
    names.Finite ∧
      (∀ value, EndsWithin (names.ncard + 1) (fun depth => require (execute depth) value) x) ∧
      (∀ value, EndsWithin (names.ncard + 1) (fun depth => requireOrFail (execute depth) value) x) ∧
      ∀ file source,
        (∀ program, Script.parse x.system.names file source = .ok program → program.isTame) →
        EndsWithin (names.ncard + 2) (fun depth => runSource (execute depth) file source) x := by
  intro names
  have hfinite := finite_moduleNames configuration x.system
  have hcard : names.ncard = hfinite.toFinset.card := Set.ncard_eq_toFinset_card _ hfinite
  have hregion := region_of_mem_moments hx hfinite.toFinset
  rw [← hcard] at hregion
  have hnames : ∀ program, IsModule configuration x.system program →
      ∀ s ∈ program.required, s.key ∈ hfinite.toFinset :=
    fun program hprogram s hs => hfinite.mem_toFinset.2 ⟨program, hprogram, s, hs, rfl⟩
  have hclosed := closed_region configuration x.system hfinite.toFinset names.ncard
  have hrequire {depth more : Nat} (hdepth : names.ncard < depth) (hmore : names.ncard < more)
      (s : Symbol) := completes_requireSymbol_of_lt contained hnames hdepth hmore s
  have hends {α : Type} {action : Nat → Action α} {depth : Nat}
      (h : ∀ more, depth ≤ more → Completes (Region configuration x.system hfinite.toFinset
        names.ncard) (action depth) (action more)) : EndsWithin depth action x :=
    ⟨(h depth (Nat.le_refl _) x hregion).ends, fun more hmore => (h more hmore x hregion).same.symm⟩
  refine ⟨hfinite, fun value => hends (fun more hmore => ?_),
    fun value => hends (fun more hmore => ?_),
    fun file source htame => hends (fun more hmore => ?_)⟩
  · exact completes_require (fun s _ => hrequire (by omega) (by omega) s)
  · exact completes_requireOrFail (fun s _ => hrequire (by omega) (by omega) s) hclosed
  · intro n hn
    obtain ⟨more, rfl⟩ := Nat.exists_eq_add_one_of_ne_zero (show more ≠ 0 by omega)
    refine CompletesFrom.bind (Completes.of_orderly hclosed (orderly_readProgram file source)
      (ends_readProgram file source) n hn) (fun program after hok hafter => ?_)
    have hparse := readProgram_ok hok
    rw [hn.serves.system] at hparse
    refine completes_runProgram hclosed (fun _ h => h.functions)
      (htame program hparse) (fun s _ => ?_) after hafter
    exact hrequire (by omega) (by omega) s

/-- A loader in whose system two scripts require each other. -/
def circular : Machine :=
  let bare := System.bare (some "/work")
  let script (source : String) : Node :=
    .file ⟨some (Text.Utf8.encode source.toList), .opens none none⟩
  let system := (bare.write "m/a.lps" (script "Require('b)")).write "m/b.lps"
    (script "Print(TryRequire(\"A\"))")
  (Machine.blank system).restart
    ⟨some [.named "m"], Extension.standard, "/opt/app/bin", [], standardEntryPoint⟩

theorem contained_circular : Contained circular.configuration circular.system :=
  .of_files _ (by decide +kernel) (by decide +kernel)

/-- The circle is entered from outside and from a source. -/
theorem require_endsWithin_circular :
    let names := moduleNames circular.configuration circular.system
    EndsWithin (names.ncard + 1) (fun depth => require (execute depth) (.string "a")) circular ∧
      EndsWithin (names.ncard + 2)
        (fun depth => runSource (execute depth) "main" "Require('B)".toList) circular := by
  have hfirst : circular ∈ moments {} circular [] := List.mem_singleton_self _
  obtain ⟨-, hrequire, -, hsource⟩ := require_endsWithin {} _ _ [] hfirst contained_circular
  refine ⟨hrequire _, hsource _ _ (fun program hparse => ?_)⟩
  have htame : (Script.parse circular.system.names "main" "Require('B)".toList).toOption.all
      Program.isTame := by
    decide +kernel
  rw [hparse] at htame
  exact htame

end ModuleLoader
