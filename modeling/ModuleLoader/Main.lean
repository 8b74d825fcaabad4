import ModuleLoader.CommandLine.Run

/-!
# The program

Answers a command line in the system it runs in. The answer is computed on a survey of the files
it has asked for so far, and computed anew as long as it asks for more. Native libraries cannot be
opened from here.

* `bytesOf`, `surveyed` : the bytes of a file, and what stands at a path;
* `surroundings` : the system without its files;
* `settle` : the answer once all files that it asks for were surveyed.
-/

namespace ModuleLoader.Main

open CommandLine (Response respond)

def bytesOf (path : String) : IO (Option (List UInt8)) := do
  try
    let place := (← IO.currentDir) / path
    return some (← IO.FS.readBinFile place).toList
  catch _ => return none

def surveyed (path : String) : IO (Option Node) := do
  let place ← try pure ((← IO.currentDir) / path) catch _ => return none
  if ← place.isDir then return some .directory
  if !(← place.pathExists) then return none
  let image : Image := .refuses (path ++ ": native libraries cannot be opened")
  return some (.file ⟨← bytesOf path, image⟩)

/-- The paths of the directories on the way to a path, and the path itself. -/
def pathsTo (path : String) : List String :=
  let segments := Text.split ['/'] path.toList
  ((List.range segments.length).map (fun n => segments.take (n + 1))).map
    (fun taken => String.ofList (Text.join ['/'] taken))

/-- The system with what stands at a path and on the way to it. -/
def survey (system : System) (path : String) : IO System := do
  let mut result := system
  for step in pathsTo path do
    match ← surveyed step with
    | some node => result := result.write step node
    | none => pure ()
  return result

def linesOf (path : String) : IO (List (List Char)) := do
  match (← bytesOf path).map Text.Utf8.decode with
  | some (.ok text) => return Text.split ['\n'] text
  | _ => return []

/-- The texts of a file that ends each one with a NUL. -/
def recordsOf (path : String) : IO (List (List Char)) := do
  let lines ← linesOf path
  return (Text.split ['\x00'] (Text.join ['\n'] lines)).filter (fun text => !text.isEmpty)

def account? (line : List Char) : Option Path.Account :=
  match (Text.split [':'] line).map String.ofList with
  | login :: _ :: uid :: _ :: _ :: home :: _ => uid.toInt?.map (fun n => ⟨login, n, home⟩)
  | _ => none

/-- The user id on the line of a process status that tells it. -/
def uid? (line : List Char) : Option Int :=
  match Text.split ['\t'] line with
  | label :: uid :: _ => if label = "Uid:".toList then (String.ofList uid).toInt? else none
  | _ => none

def assignment? (record : List Char) : Option (String × String) :=
  if record.contains '=' then
    let (name, value) := Text.cut ['='] record
    some (String.ofList name, String.ofList value)
  else none

def surroundings : IO System := do
  let workingDirectory ← try pure (some (← IO.currentDir).toString) catch _ => pure none
  let assignments := (← recordsOf "/proc/self/environ").filterMap assignment?
  let arguments ← recordsOf "/proc/self/cmdline"
  let uid := ((← linesOf "/proc/self/status").findSome? uid?).getD 0
  let accounts := (← linesOf "/etc/passwd").filterMap account?
  let system := { System.bare workingDirectory with
    environment := assignments
    arguments := arguments.map String.ofList
    users := ⟨uid, some accounts⟩ }
  return system.enter workingDirectory

def consulted (events : List Event) : List String :=
  (events.filterMap (fun event => match event with
    | .consulted _ path => some path
    | _ => none)).eraseDups

/-- The answer once all files that it asks for were surveyed. -/
partial def settle (system : System) (known arguments : List String) : IO Response := do
  let response := respond system arguments
  match (consulted response.events).filter (fun path => !known.contains path) with
  | [] => return response
  | unknown =>
    let fuller ← unknown.foldlM survey system
    settle fuller (known ++ unknown) arguments

end ModuleLoader.Main

open ModuleLoader in
/-- Answers the command line. A failure that escapes is told and ends in status 1. -/
def main (arguments : List String) : IO UInt32 := do
  let system ← Main.surroundings
  let response ← Main.settle system [] arguments
  IO.print response.output
  IO.eprint response.errors
  match response.exit with
  | .ok status => return status.toUInt32
  | .error report => do
    IO.eprintln (report.message false)
    return 1
