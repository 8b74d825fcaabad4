import ModuleLoader.Text.Letter
import ModuleLoader.Text.Split

/-!
# Separator policy

A path is a sequence of segments with a separator between them. The policy is which text separates
and which paths are rooted. Directory and base name are parts of the text of a path.

* `Segment`, `current`, `parent` : the text between two separators, and the two segments that do
  not name an entry;
* `Policy`, `Policy.standard` : the separator, and whether drive prefixes root a path;
* `Policy.isRooted` : the path starts with the separator or with a drive prefix;
* `Fault` : what makes a path operation impossible;
* `Policy.join` : a name inside a directory;
* `Policy.baseName?` : the text after the last separator, if that is not the end of the path;
* `Policy.dirName` : the text before the last separator.
-/

namespace ModuleLoader.Path

abbrev Segment := List Char

def current : Segment := ['.']

def parent : Segment := ['.', '.']

/-- What makes a path operation impossible. -/
inductive Fault where
  /-- A path cannot be taken apart at an empty separator. -/
  | emptySeparator
  /-- A login name handed to the account database holds a NUL. -/
  | nulInLogin
  deriving DecidableEq, Repr

def Fault.message : Fault → String
  | .emptySeparator => "empty separator"
  | .nulInLogin => "embedded null byte"

/-- The separator and the rooting rule of a platform. -/
structure Policy where
  separator : String
  drivePrefixes : Bool
  deriving DecidableEq, Repr, Inhabited

/-- The slash separates, and there are no drives. -/
def Policy.standard : Policy := ⟨"/", false⟩

def hasDrivePrefix : List Char → Bool
  | c :: ':' :: _ => Text.isLetter c
  | _ => false

/-- The path starts with the separator, or with a drive prefix where those count. -/
def isRootedText (separator : List Char) (drivePrefixes : Bool) (path : List Char) : Bool :=
  separator.isPrefixOf path || (drivePrefixes && hasDrivePrefix path)

/-- The path does not depend on the working directory. -/
def Policy.isRooted (policy : Policy) (path : String) : Bool :=
  isRootedText policy.separator.toList policy.drivePrefixes path.toList

/-! ## Directory and base name -/

/-- The text after the last separator: all of it without one, none when one ends the path. Of a
longer separator only the first character is left out. -/
def baseText? (separator path : List Char) : Option (List Char) :=
  match Text.lastIndex? separator path with
  | none => some path
  | some index =>
    if index + 1 = path.length then none else some (path.drop (index + 1))

/-- The text before the last separator: `.` without one, the separator itself where it begins
the path. -/
def dirText (separator path : List Char) : List Char :=
  match Text.lastIndex? separator path with
  | none => current
  | some 0 => separator
  | some index => path.take index

/-- The name inside the directory, with no regard to how either is spelled. -/
def Policy.join (policy : Policy) (directory name : String) : String :=
  directory ++ policy.separator ++ name

/-- The text after the last separator; none when the path ends in one. -/
def Policy.baseName? (policy : Policy) (path : String) : Option String :=
  (baseText? policy.separator.toList path.toList).map String.ofList

def Policy.dirName (policy : Policy) (path : String) : String :=
  String.ofList (dirText policy.separator.toList path.toList)

end ModuleLoader.Path
