import ModuleLoader.Proofs.Action
import ModuleLoader.Session

/-!
# Starting a loader

What a host does not fix is taken from the system as it is when the loader starts. Only the
directory of the program can be missing.

* `on_forM_note`, `on_expandPath` : a path expanded, with notes alone;
* `System.programPath`, `System.programDirectory` : the path of the running program, and the
  directory that a loader takes it to be in (`on_programDirectory`);
* `Settings.exeDirIn`, `Settings.configurationIn` : what a loader is started with in a system;
* `on_start` : a loader starts with that, or it does not start for lack of a directory.
-/

namespace ModuleLoader

open ModuleLoader.Action

theorem on_forM_note (notes : List Note) (m : Machine) :
    (notes.forM note : Action Unit).on m = (.ok (), m.replay (notes.map .noted)) := by
  induction notes generalizing m with
  | nil => rfl
  | cons n rest ih => exact ih (m.record (.noted n))

/-- A path is expanded, or it is noted down why it has no expansion. -/
theorem on_expandPath (path : String) (m : Machine) :
    (expandPath path).on m = match m.system.expand path with
      | .ok expanded => (.ok (some expanded), m)
      | .error (.fault fault) => (.error (.fault (.badPath fault)), m)
      | .error failure => (.ok none, m.replay ((expansionNotes path failure).map .noted)) := by
  unfold expandPath
  rw [on_get_bind]
  cases m.system.expand path with
  | ok expanded => rfl
  | error failure =>
    cases failure with
    | fault fault => rfl
    | noHome reason => exact on_bind_ok (on_forM_note _ m) _
    | noWorkingDirectory => exact on_bind_ok (on_forM_note _ m) _

/-- The expanded path of the running program, if it is known and has one. -/
def System.programPath (system : System) : Except Path.Fault (Option String) :=
  let program := system.arguments.head?.getD ""
  if program.isEmpty then .ok none
  else
    match system.expand program with
    | .ok path => .ok (some path)
    | .error (.fault fault) => .error fault
    | .error _ => .ok none

/-- The directory of the running program, or else the working directory. -/
def System.programDirectory (system : System) : Except Fault String :=
  match system.programPath, system.workingDirectory with
  | .error fault, _ => .error (.badPath fault)
  | .ok (some path), _ => .ok (Path.Policy.standard.dirName path)
  | .ok none, some directory => .ok directory
  | .ok none, none => .error .noWorkingDirectory

/-- Looking for the directory of the program tells of nothing but notes. -/
theorem on_programDirectory (m : Machine) : ∃ notes : List Note,
    programDirectory.on m =
      (m.system.programDirectory.mapError Stop.fault, m.replay (notes.map .noted)) := by
  unfold programDirectory System.programDirectory System.programPath
  rw [on_get_bind]
  dsimp only
  generalize m.system.arguments.head?.getD "" = program
  split
  · refine ⟨[], ?_⟩
    rw [pure_bind, on_get_bind]
    cases m.system.workingDirectory <;> rfl
  · have hexpand := on_expandPath program m
    cases hpath : m.system.expand program with
    | ok path =>
      rw [hpath] at hexpand
      exact ⟨[], on_bind_ok hexpand _⟩
    | error failure =>
      rw [hpath] at hexpand
      cases failure with
      | fault fault => exact ⟨[], on_bind_error hexpand _⟩
      -- Without an expansion the working directory is taken.
      | noHome reason =>
        refine ⟨expansionNotes program (.noHome reason), (on_bind_ok hexpand _).trans ?_⟩
        rw [on_get_bind, Machine.system_replay]
        cases m.system.workingDirectory <;> rfl
      | noWorkingDirectory =>
        refine ⟨expansionNotes program .noWorkingDirectory, (on_bind_ok hexpand _).trans ?_⟩
        rw [on_get_bind, Machine.system_replay]
        cases m.system.workingDirectory <;> rfl

namespace Settings

def exeDirIn (settings : Settings) (system : System) : Except Fault String :=
  match settings.exeDir with
  | some directory => .ok directory
  | none => system.programDirectory

def configurationIn (settings : Settings) (system : System) (exeDir : String) : Configuration where
  searchPaths := settings.searchPaths
  extensions := settings.extensions.getD Extension.standard
  exeDir := exeDir
  environment := settings.environment.getD system.environment
  entryPoint := settings.entryPoint

end Settings

/-- A loader starts with what is fixed and with what the system says, unless the directory of the
program cannot be told. -/
theorem on_start (settings : Settings) (m : Machine) : ∃ notes : List Note,
    (start settings).on m = match settings.exeDirIn m.system with
      | .ok exeDir => (.ok (), (m.replay (notes.map .noted)).restart
          (settings.configurationIn m.system exeDir))
      | .error fault => (.error (.fault fault), m.replay (notes.map .noted)) := by
  unfold start Settings.exeDirIn
  cases settings.exeDir with
  | some directory => exact ⟨[], rfl⟩
  | none =>
    obtain ⟨notes, hprogram⟩ := on_programDirectory m
    refine ⟨notes, ?_⟩
    dsimp only
    cases hdirectory : m.system.programDirectory with
    | error fault =>
      rw [hdirectory] at hprogram
      exact on_bind_error hprogram _
    | ok directory =>
      rw [hdirectory] at hprogram
      refine (on_bind_ok hprogram _).trans ?_
      rw [on_get_bind, Machine.system_replay]
      rfl

end ModuleLoader
