import ModuleLoader.Proofs.Completion
import ModuleLoader.Proofs.Encoding
import ModuleLoader.Proofs.Lookup
import ModuleLoader.Proofs.Require

/-!
# How reading a script ends

A script file is read and parsed before any of it runs. Whatever the path and the bytes of the file
are, this comes to the program or fails in one of a few ways, and leaves the loader as it was.

* `System.Holds`, `System.readText_eq_ok` : the text of the file that a path leads to;
* `System.readText_eq_nul` : the paths that are refused before they are looked up;
* `Reading`, `Compiling` : what may come of a script file;
* `Machine.Untouched` : a state in which nothing was loaded, bound or printed since;
* `load_outcome` : what comes of reading, compiling and loading a script;
* `nul_escapes_reading` : a path with a NUL, for which no read failure is reported.
-/

namespace ModuleLoader

open ModuleLoader.Action

/-! ## The text of a file -/

/-- The file that a path leads to may be read, and holds the bytes of this text. -/
def System.Holds (system : System) (path : String) (text : List Char) : Prop :=
  ∃ place image, system.locate path = .ok place ∧
    system.files.nodeAt? place = some (.file ⟨some (Text.Utf8.encode text), image⟩)

namespace System
variable {system : System} {path : String} {text source : List Char}

/-- The text of the bytes of a file, or what keeps them from being one. -/
def textOf (bytes : List UInt8) : Except Obstacle (List Char) :=
  match Text.Utf8.decode bytes with
  | .ok text => .ok (Text.normalizeNewlines text)
  | .error fault => .error (.notText fault)

theorem readText_eq (system : System) (path : String) :
    system.readText path =
      match system.locate path with
      | .error obstacle => .error obstacle
      | .ok place =>
        match system.files.nodeAt? place with
        | none => .error .noSuchEntry
        | some .directory => .error .isADirectory
        | some (.file ⟨none, _⟩) => .error .permissionDenied
        | some (.file ⟨some bytes, _⟩) => textOf bytes := by
  unfold readText FileSystem.readText FileSystem.find locate
  cases system.files.locate system.place? (tidy path.toList) with
  | error obstacle => rfl
  | ok place =>
    cases hnode : system.files.nodeAt? place with
    | none => simp [bind, Except.bind, hnode]
    | some node =>
      rcases node with ⟨⟨_ | bytes, image⟩⟩ | _
      · simp only [bind, Except.bind, hnode]
      · simp only [bind, Except.bind, hnode]
        rfl
      · simp only [bind, Except.bind, hnode]

theorem textOf_eq_ok {bytes : List UInt8} : textOf bytes = .ok source ↔
    ∃ text, bytes = Text.Utf8.encode text ∧ source = Text.normalizeNewlines text := by
  simp only [← Text.Utf8.decode_eq_ok]
  unfold textOf
  cases Text.Utf8.decode bytes with
  | error fault => exact iff_of_false (fun h => by cases h) (fun ⟨_, h, _⟩ => by cases h)
  | ok text =>
    constructor
    · rintro ⟨⟩
      exact ⟨text, rfl, rfl⟩
    · rintro ⟨_, ⟨⟩, rfl⟩
      rfl

/-- What is read of a file is its text, with every line ended by a line feed. -/
theorem readText_eq_ok : system.readText path = .ok source ↔
    ∃ text, system.Holds path text ∧ source = Text.normalizeNewlines text := by
  rw [readText_eq]
  constructor
  · intro h
    split at h
    · cases h
    · rename_i place hplace
      split at h
      · cases h
      · cases h
      · cases h
      · rename_i bytes image hnode
        obtain ⟨text, rfl, hsource⟩ := textOf_eq_ok.1 h
        exact ⟨text, ⟨place, image, hplace, hnode⟩, hsource⟩
  · rintro ⟨text, ⟨place, image, hplace, hnode⟩, hsource⟩
    rw [hplace]
    dsimp only
    rw [hnode]
    exact textOf_eq_ok.2 ⟨text, rfl, hsource⟩

theorem locate_eq_nul (system : System) (path : String) :
    system.locate path = .error .nulInPath ↔ '\x00' ∈ path.toList := by
  have htidy : '\x00' ∈ tidy path.toList ↔ '\x00' ∈ path.toList := by
    refine ⟨fun h => ?_, nul_mem_tidy_of_mem⟩
    obtain ⟨segment, hs, hnul⟩ := (nul_mem_tidy path.toList).1 h
    rw [← Text.join_split (List.cons_ne_nil '/' []) path.toList]
    exact Text.mem_join_of_mem (List.mem_filter.1 hs).1 hnul
  rw [← htidy, locate, FileSystem.locate_eq]
  split_ifs with hnul hsize
  · exact iff_of_true rfl hnul
  · exact iff_of_false (fun h => by cases h) hnul
  · refine iff_of_false (fun h => ?_) hnul
    split at h
    · exact system.files.walk_ne_nul _ _ h
    · cases h

/-- Only the path itself can hold a NUL. -/
theorem readText_eq_nul (system : System) (path : String) :
    system.readText path = .error .nulInPath ↔ '\x00' ∈ path.toList := by
  rw [← locate_eq_nul system, readText_eq]
  split
  · rename_i obstacle hlocate
    rw [hlocate]
    exact ⟨fun h => by rw [Except.error.inj h], fun h => by rw [Except.error.inj h]⟩
  · rename_i place hlocate
    rw [hlocate]
    refine iff_of_false (fun h => ?_) (fun h => by cases h)
    split at h
    · cases h
    · cases h
    · cases h
    · unfold textOf at h
      split at h <;> cases h

theorem Holds.noNul (h : system.Holds path text) : '\x00' ∉ path.toList := by
  obtain ⟨place, image, hplace, -⟩ := h
  rw [← locate_eq_nul system, hplace]
  exact fun h => by cases h

end System

/-! ## What may come of a script -/

/-- What may come of reading a script. -/
inductive Reading (system : System) (path : String) : Except Stop (List Char) → Prop where
  | text {text : List Char} (holds : system.Holds path text) :
      Reading system path (.ok (Text.normalizeNewlines text))
  /-- The failure names the path as it was given. -/
  | unreadable (noText : ∀ text, ¬ system.Holds path text) (noNul : '\x00' ∉ path.toList)
      (obstacle : Obstacle) : Reading system path (.error (.fault (.unreadable path obstacle)))
  | nulInPath (nul : '\x00' ∈ path.toList) : Reading system path (.error (.fault .nulInPath))

/-- What may come of compiling a script. -/
inductive Compiling (system : System) (path : String) : Except Stop Compiled → Prop where
  | program {source : List Char} {program : Script.Program}
      (reads : Reading system path (.ok source))
      (parses : Script.parse system.names path source = .ok program) :
      Compiling system path (.ok ⟨path, program⟩)
  | malformed {source : List Char} {fault : Script.SourceFault}
      (reads : Reading system path (.ok source))
      (fails : Script.parse system.names path source = .error fault) :
      Compiling system path (.error (.fault (.malformed path source fault)))
  | unread {stop : Stop} (reads : Reading system path (.error stop)) :
      Compiling system path (.error stop)

/-- Nothing was loaded, bound or printed between the two states. -/
structure Machine.Untouched (m after : Machine) : Prop where
  system : after.system = m.system
  builtins : after.builtins = m.builtins
  registry : after.registry = m.registry
  globals : after.globals = m.globals
  told : ∃ events, after.trace = events ++ m.trace ∧ printedText events = "" ∧
    libraryEvents events = []

theorem Machine.untouched_replay {m : Machine} {events : List Event}
    (h : ∀ event ∈ events, event.isQuiet) : m.Untouched (m.replay events) := by
  obtain ⟨hregistry, hglobals, -⟩ := m.replay_quiet h
  have hreverse : ∀ event ∈ events.reverse, event.isQuiet :=
    fun event he => h event (List.mem_reverse.1 he)
  exact ⟨m.system_replay events, m.builtins_replay events, hregistry, hglobals, events.reverse,
    m.trace_replay events, printedText_quiet hreverse, libraryEvents_quiet hreverse⟩

theorem on_readSource (path : String) (m : Machine) :
    ∃ result, (readSource path).on m = (result, m.record (.consulted .read path)) ∧
      Reading m.system path result := by
  unfold readSource
  simp only [on_record_bind, on_get_bind, Machine.system_record]
  cases hread : m.system.readText path with
  | ok source =>
    obtain ⟨text, hholds, rfl⟩ := System.readText_eq_ok.1 hread
    exact ⟨_, rfl, .text hholds⟩
  | error obstacle =>
    have hnul := System.readText_eq_nul m.system path
    have hnone : ∀ text, ¬ m.system.Holds path text := by
      intro text hholds
      have hok := System.readText_eq_ok.2 ⟨text, hholds, rfl⟩
      rw [hread] at hok
      cases hok
    rw [hread] at hnul
    cases obstacle with
    | nulInPath => exact ⟨_, rfl, .nulInPath (hnul.1 rfl)⟩
    | _ => exact ⟨_, rfl, .unreadable hnone (fun h => by cases hnul.2 h) _⟩

theorem on_readProgram (file : String) (source : List Char) (m : Machine) :
    ∃ events, (∀ event ∈ events, event.isQuiet) ∧
      (readProgram file source).on m =
        (match Script.parse m.system.names file source with
          | .ok program => .ok program
          | .error fault => .error (.fault (.malformed file source fault)), m.replay events) := by
  cases hparse : Script.parse m.system.names file source with
  | ok program => exact ⟨[], by simp, on_readProgram_parsed hparse⟩
  | error fault =>
    obtain ⟨notes, hfault⟩ := on_readProgram_fault hparse
    exact ⟨notes.map .noted, by simp [Event.isQuiet], hfault⟩

theorem on_compiling (path : String) (m : Machine) :
    ∃ result events, (∀ event ∈ events, event.isQuiet) ∧
      (compileFile path).on m = (result, m.replay events) ∧ Compiling m.system path result := by
  obtain ⟨read, hread, hreading⟩ := on_readSource path m
  unfold compileFile
  cases read with
  | error stop =>
    refine ⟨_, [.consulted .read path], by simp [Event.isQuiet], ?_, .unread hreading⟩
    rw [on_bind_error hread]
    rfl
  | ok source =>
    obtain ⟨events, hquiet, hprogram⟩ :=
      on_readProgram path source (m.record (.consulted .read path))
    have hall : ∀ event ∈ .consulted .read path :: events, event.isQuiet := by
      intro event he
      rcases List.mem_cons.1 he with rfl | he
      · rfl
      · exact hquiet event he
    rw [on_bind_ok hread]
    rw [Machine.system_record] at hprogram
    cases hparse : Script.parse m.system.names path source with
    | ok program =>
      rw [hparse] at hprogram
      refine ⟨_, _, hall, ?_, .program hreading hparse⟩
      rw [on_bind_ok hprogram]
      rfl
    | error fault =>
      rw [hparse] at hprogram
      refine ⟨_, _, hall, ?_, .malformed hreading hparse⟩
      rw [on_bind_error hprogram]
      rfl

/-- What comes of a script in a state in which compiling it came to a result. -/
def proceed (exec : Execute) (ready : Machine) :
    Except Stop Compiled → Except Stop Value × Machine
  | .ok compiled => (exec compiled.program).on ready
  | .error stop => (.error stop, ready)

theorem on_loading (exec : Execute) {path : String} {m : Machine} {events : List Event}
    {result : Except Stop Compiled} (hquiet : ∀ event ∈ events, event.isQuiet)
    (hcompile : (compileFile path).on m = (result, m.replay events)) :
    ∃ ready, m.Untouched ready ∧ (loadScript exec path).on m = proceed exec ready result := by
  unfold loadScript
  cases result with
  | error stop =>
    exact ⟨_, Machine.untouched_replay hquiet, on_bind_error hcompile _⟩
  | ok compiled =>
    have hall : ∀ event ∈ events ++ [.noted (.executing compiled.path)], event.isQuiet := by
      intro event he
      rcases List.mem_append.1 he with he | he
      · exact hquiet event he
      · rw [List.mem_singleton.1 he]
        rfl
    refine ⟨_, Machine.untouched_replay hall, ?_⟩
    rw [on_bind_ok hcompile, on_note_bind, Machine.replay_append]
    rfl

/-! ## Which failures are told -/

/-- The report says of this path that it cannot be read, or that it is no program. -/
def Report.Blames (path : String) : Report → Prop
  | .scriptRead read _ => read = path
  | .scriptSyntax _ file _ _ => file = path
  | _ => False

theorem Reading.report {system : System} {path : String} {fault : Fault}
    (h : Reading system path (.error (.fault fault))) :
    (∃ reason, fault.report = .scriptRead path reason) ↔ '\x00' ∉ path.toList := by
  cases h with
  | unreadable _ noNul obstacle => exact iff_of_true ⟨obstacle.message, rfl⟩ noNul
  | nulInPath nul => exact iff_of_false (fun ⟨_, h⟩ => by cases h) (fun h => h nul)

theorem Reading.noNul {system : System} {path : String} {source : List Char}
    (h : Reading system path (.ok source)) : '\x00' ∉ path.toList := by
  cases h with
  | text holds => exact holds.noNul

theorem Compiling.report {system : System} {path : String} {fault : Fault}
    (h : Compiling system path (.error (.fault fault))) :
    fault.report.Blames path ↔ '\x00' ∉ path.toList := by
  cases h with
  | malformed reads fails => exact iff_of_true rfl reads.noNul
  | unread reads =>
    cases reads with
    | unreadable _ noNul obstacle => exact iff_of_true rfl noNul
    | nulInPath nul => exact iff_of_false (fun h => h) (fun h => h nul)

/-- Reading, compiling and loading a script come to its text, to its program and to the run of it,
or they fail as reading and parsing do. The failure is one of reading or of syntax and names the
path, unless the path holds a NUL. Until the program runs, nothing is loaded, bound or printed. -/
theorem load_outcome (exec : Execute) (path : String) (m : Machine) :
    ∃ text result afterReading afterCompiling ready,
      ((readSource path).on m = (text, afterReading) ∧ m.Untouched afterReading ∧
        Reading m.system path text ∧ ∀ fault, text = .error (.fault fault) →
          ((∃ reason, fault.report = .scriptRead path reason) ↔ '\x00' ∉ path.toList)) ∧
      ((compileFile path).on m = (result, afterCompiling) ∧ m.Untouched afterCompiling ∧
        Compiling m.system path result ∧ ∀ fault, result = .error (.fault fault) →
          (fault.report.Blames path ↔ '\x00' ∉ path.toList)) ∧
      m.Untouched ready ∧ (loadScript exec path).on m = proceed exec ready result := by
  obtain ⟨text, hread, hreading⟩ := on_readSource path m
  obtain ⟨result, events, hquiet, hcompile, hcompiling⟩ := on_compiling path m
  obtain ⟨ready, hready, hload⟩ := on_loading exec hquiet hcompile
  have hone : ∀ event ∈ [Event.consulted .read path], event.isQuiet := by simp [Event.isQuiet]
  have hreadReport (fault : Fault) (h : text = .error (.fault fault)) := (h ▸ hreading).report
  have hreport (fault : Fault) (h : result = .error (.fault fault)) := (h ▸ hcompiling).report
  exact ⟨text, result, _, _, ready,
    ⟨hread, Machine.untouched_replay hone, hreading, hreadReport⟩,
    ⟨hcompile, Machine.untouched_replay hquiet, hcompiling, hreport⟩, hready, hload⟩

/-- A path with a NUL is reported as a wrong value, not as a script that cannot be read. -/
theorem nul_escapes_reading :
    let m := Machine.blank (System.bare (some "/work"))
    ((readSource "a\x00b").on m).1 = .error (.fault .nulInPath) ∧
      ((compileFile "a\x00b").on m).1 = .error (.fault .nulInPath) ∧
      Fault.nulInPath.report = .wrongValue "embedded null byte" :=
  ⟨rfl, rfl, rfl⟩

end ModuleLoader
