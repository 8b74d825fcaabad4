import ModuleLoader.Path.Policy
import ModuleLoader.Text.Utf8

/-!
# Files and directories

A tree of named entries. Paths are looked up one segment at a time, from the root or from the
working directory. There are no symbolic links in the tree: what can be reached through one has an
entry of its own, and that a `..` behind a link leads elsewhere is left out.

* `Place`, `Place.resolve` : a place in the tree, and the place that a text names by itself;
* `Unresolved`, `Resolution` : the place that a path has once its links were followed, which is
  left to the system;
* `File`, `Image`, `Node` : what stands at a place; an image is what the file is to the loader of
  native libraries;
* `FileSystem.nodeAt?`, `insert`, `erase` : the tree as a partial map; only files are taken away,
  directories stay;
* `Obstacle` : why a path leads nowhere or a file cannot be read;
* `FileSystem.walk`, `locate` : the place that a path leads to;
* `tidy` : the spelling under which files are probed and read;
* `FileSystem.isFile`, `readText`, `openImage` : the three ways a path is used.
-/

namespace ModuleLoader

open ModuleLoader.Path (Segment)

/-- The names on the way from the root to a place. -/
abbrev Place := List Segment

/-- The place reached from `base` by the segments of a text. Nothing is looked up, so a `..`
takes back the name before it. -/
def Place.step (base : Place) (segment : Segment) : Place :=
  if segment = [] ∨ segment = Path.current then base
  else if segment = Path.parent then base.dropLast
  else base ++ [segment]

def Place.resolve (base : Place) (path : List Char) : Place :=
  let start := if path.head? = some '/' then [] else base
  (Text.split ['/'] path).foldl Place.step start

inductive Unresolved where
  | noWorkingDirectory
  | nulInPath
  /-- The links at the path lead back to themselves. -/
  | circularLinks (path : String)
  deriving DecidableEq, Repr

/-- How paths get their places, seen from the working directory. -/
abbrev Resolution := Option Place → String → Except Unresolved Place

/-- Every path has the place that it names by its text. -/
def Resolution.byText : Resolution
  | some base, path => .ok (base.resolve path.toList)
  | none, path =>
    if path.toList.head? = some '/' then .ok (Place.resolve [] path.toList)
    else .error .noWorkingDirectory

/-- A path without a NUL has the place that it names by its text. -/
def Resolution.refusingNul : Resolution := fun base path =>
  if path.toList.contains '\x00' then .error .nulInPath else byText base path

/-- What a file is when it is opened as a native library. -/
inductive Image where
  /-- It opens and exposes the entry point, if any; calling that runs the script, if any. -/
  | opens (entryPoint : Option String) (install : Option String)
  /-- It does not open, for the reason given. -/
  | refuses (diagnostic : String)
  deriving DecidableEq, Repr

/-- A regular file. Without contents it may not be read. -/
structure File where
  contents : Option (List UInt8)
  image : Image
  deriving DecidableEq, Repr

inductive Node where
  | file (file : File)
  | directory
  deriving DecidableEq, Repr

/-- The entries of a tree. The directories on the way to an entry exist by themselves. -/
structure FileSystem where
  entries : List (Place × Node)
  deriving DecidableEq, Repr

/-- Why a path leads nowhere, or a file cannot be read. -/
inductive Obstacle where
  | nulInPath
  | nameTooLong
  | notADirectory
  | noSuchEntry
  | isADirectory
  | permissionDenied
  | notText (fault : Text.Utf8.Fault)
  deriving DecidableEq, Repr

def Obstacle.message : Obstacle → String
  | .nulInPath => "embedded null byte"
  | .nameTooLong => "File name too long"
  | .notADirectory => "Not a directory"
  | .noSuchEntry => "No such file or directory"
  | .isADirectory => "Is a directory"
  | .permissionDenied => "Permission denied"
  | .notText fault =>
    "not valid utf-8 text (" ++ fault.flaw.message ++ " at byte " ++ toString fault.offset ++ ")"

namespace FileSystem

def empty : FileSystem := ⟨[]⟩

/-- What stands at a place: the entry there, or a directory above some entry. -/
def nodeAt? (files : FileSystem) (place : Place) : Option Node :=
  match files.entries.lookup place with
  | some node => some node
  | none =>
    if place.isEmpty || files.entries.any (fun entry => place.isPrefixOf entry.1) then
      some .directory
    else none

/-- The tree with an entry put in place of the one that stood there. -/
def insert (files : FileSystem) (place : Place) (node : Node) : FileSystem :=
  ⟨(place, node) :: files.entries.filter (fun entry => entry.1 != place)⟩

/-- The tree in which a place is a directory unless something stands there. -/
def ensureDirectory (files : FileSystem) (place : Place) : FileSystem :=
  if (files.nodeAt? place).isSome then files else files.insert place .directory

/-- The tree without the file at a place. The directory that held it stays, and a directory at
the place itself is not taken away. -/
def erase (files : FileSystem) (place : Place) : FileSystem :=
  match files.entries.lookup place with
  | some (.file _) =>
    ensureDirectory ⟨files.entries.filter (fun entry => entry.1 != place)⟩ place.dropLast
  | _ => files

theorem lookup_filter_ne (place : Place) (entries : List (Place × Node)) :
    (entries.filter (fun entry => entry.1 != place)).lookup place = none := by
  induction entries with
  | nil => rfl
  | cons entry rest ih =>
    obtain ⟨other, node⟩ := entry
    by_cases h : other = place
    · simp [h, ih]
    · simp only [List.filter_cons, bne_iff_ne, ne_eq, h, not_false_eq_true, if_true,
        List.lookup_cons, beq_eq_false_iff_ne.2 (Ne.symm h), ih]

@[simp] theorem nodeAt?_insert_self (files : FileSystem) (place : Place) (node : Node) :
    (files.insert place node).nodeAt? place = some node := by
  simp [insert, nodeAt?]

theorem nodeAt?_root (files : FileSystem) (h : files.entries.lookup [] = none) :
    files.nodeAt? [] = some .directory := by
  simp [nodeAt?, h]

theorem isSome_nodeAt?_ensureDirectory (files : FileSystem) (place : Place) :
    ((files.ensureDirectory place).nodeAt? place).isSome := by
  unfold ensureDirectory
  split
  · assumption
  · simp

/-- Where no file stands, nothing is taken away. -/
theorem erase_eq_self {files : FileSystem} {place : Place}
    (h : ∀ file, files.entries.lookup place ≠ some (.file file)) : files.erase place = files := by
  unfold erase
  split
  · exact absurd (by assumption) (h _)
  · rfl

/-- The most bytes in a name. -/
def nameLimit : Nat := 255

/-- A path has fewer bytes than this. -/
def pathLimit : Nat := 4096

/-- The place reached from a place by the remaining segments. Every segment, also an empty one,
asks for a directory before it. -/
def walk (files : FileSystem) : Place → List Segment → Except Obstacle Place
  | place, [] => .ok place
  | place, segment :: rest =>
    match files.nodeAt? place with
    | none => .error .noSuchEntry
    | some (.file _) => .error .notADirectory
    | some .directory =>
      if nameLimit < Text.Utf8.size segment then .error .nameTooLong
      else if segment = [] ∨ segment = Path.current then files.walk place rest
      else if segment = Path.parent then files.walk place.dropLast rest
      else if (files.nodeAt? (place ++ [segment])).isNone then .error .noSuchEntry
      else files.walk (place ++ [segment]) rest

def locate (files : FileSystem) (workingDirectory : Option Place) (path : List Char) :
    Except Obstacle Place :=
  if path.contains '\x00' then .error .nulInPath
  else if pathLimit ≤ Text.Utf8.size path then .error .nameTooLong
  else
    match path, workingDirectory with
    | '/' :: rest, _ => files.walk [] (Text.split ['/'] rest)
    | _, some place => files.walk place (Text.split ['/'] path)
    | _, none => .error .noSuchEntry

def find (files : FileSystem) (workingDirectory : Option Place) (path : List Char) :
    Except Obstacle Node := do
  match files.nodeAt? (← files.locate workingDirectory path) with
  | some node => .ok node
  | none => .error .noSuchEntry

end FileSystem

/-- The segments that name an entry or the directory above. -/
def properSegments (path : List Char) : List Segment :=
  (Text.split ['/'] path).filter (fun segment => segment != [] && segment != Path.current)

/-- The slashes that root a path: exactly two stay two, other runs count as one. -/
def leadingSlashes : List Char → List Char
  | '/' :: '/' :: '/' :: _ => ['/']
  | '/' :: '/' :: _ => ['/', '/']
  | '/' :: _ => ['/']
  | _ => []

/-- The path without repeated and trailing slashes and without `.` segments; nothing at all is
the directory itself. -/
def tidy (path : List Char) : List Char :=
  let result := leadingSlashes path ++ Text.join ['/'] (properSegments path)
  if result.isEmpty then Path.current else result

namespace FileSystem

/-- The path leads to a regular file; whatever stands in the way counts as absence. -/
def isFile (files : FileSystem) (workingDirectory : Option Place) (path : List Char) : Bool :=
  match files.find workingDirectory (tidy path) with
  | .ok (.file _) => true
  | _ => false

/-- The text of the file that a path leads to, with line feeds as its only line ends. -/
def readText (files : FileSystem) (workingDirectory : Option Place) (path : List Char) :
    Except Obstacle (List Char) := do
  match ← files.find workingDirectory (tidy path) with
  | .directory => .error .isADirectory
  | .file ⟨none, _⟩ => .error .permissionDenied
  | .file ⟨some bytes, _⟩ =>
    match Text.Utf8.decode bytes with
    | .ok text => .ok (Text.normalizeNewlines text)
    | .error fault => .error (.notText fault)

/-- What opening the file at a path as a native library gives. The path is not tidied first. -/
def openImage (files : FileSystem) (workingDirectory : Option Place) (path : List Char) :
    Except Obstacle Image := do
  match ← files.find workingDirectory path with
  | .directory => .error .isADirectory
  | .file file => .ok file.image

end FileSystem

end ModuleLoader
