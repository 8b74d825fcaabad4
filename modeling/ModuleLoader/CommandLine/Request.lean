import ModuleLoader.CommandLine.Word
import ModuleLoader.Module

/-!
# Requests

* `Request` : what a command line asks for;
* `Setting`, `Unfolded`, `unfold` : a flag with its value, and the flags that are written as one
  argument;
* `Progress`, `Progress.walk` : the words taken in order, and what came of them;
* `Request.ofArguments` : the request of a command line.
-/

namespace ModuleLoader.CommandLine

/-- What a command line asks for. A flag whose value is nothing but `--` counts among the
directories or modules and names none. -/
structure Request where
  file : Option String := none
  searchPath : List SearchDirectory := []
  modules : List (Option String) := []
  verbose : Bool := false
  deriving DecidableEq, Repr

inductive Refusal where
  /-- It asks for help. -/
  | help
  | complaint (complaint : Complaint)
  deriving DecidableEq, Repr

/-- A flag with its value; a flag without one has an empty value. -/
structure Setting where
  flag : Flag
  value : List Char
  deriving DecidableEq, Repr

/-- What one argument comes to: the settings it makes, and the flag that waits for its value. -/
structure Unfolded where
  settings : List Setting
  waiting : Option Flag := none
  deriving DecidableEq, Repr

def Unfolded.bare (flag : Flag) : Unfolded :=
  if flag.takesValue then { settings := [], waiting := some flag } else { settings := [⟨flag, []⟩] }

def Unfolded.cons (setting : Setting) (u : Unfolded) : Unfolded :=
  { u with settings := setting :: u.settings }

/-- What a short flag comes to with the text attached to it: the text is its value, or further
short flags when it has none. -/
def unfold (flag : Flag) : List Char → Except Complaint Unfolded
  | [] =>
    if flag.takesValue then .ok { settings := [⟨flag, []⟩] } else .error (.valueIgnored flag [])
  | c :: rest =>
    if flag.takesValue then .ok { settings := [⟨flag, c :: rest⟩] }
    else
      match Flag.ofLetter? c with
      | none => .error (.valueIgnored flag (c :: rest))
      | some next =>
        match rest with
        | [] => .ok (.cons ⟨flag, []⟩ (.bare next))
        | d :: more => (unfold next (d :: more)).map (.cons ⟨flag, []⟩)

/-- What a flag comes to with what is attached to it. -/
def settingsOf (flag : Flag) (isLong : Bool) : Option (List Char) → Except Complaint Unfolded
  | none => .ok (.bare flag)
  | some attached =>
    if isLong && !flag.takesValue then .error (.valueIgnored flag attached)
    else unfold flag attached

/-- The words taken so far: the request, whether the file was settled, and the words that have no
place. -/
structure Progress where
  request : Request := {}
  fileSettled : Bool := false
  extras : List (List Char) := []
  deriving DecidableEq, Repr

namespace Progress

/-- What a flag's value names; a lone divider names nothing. -/
def named? (value : List Char) : Option String :=
  if value = dividerText then none else some (String.ofList value)

/-- The effect of a setting. Help ends everything. -/
def apply (p : Progress) (setting : Setting) : Except Refusal Progress :=
  let request := p.request
  let value := named? setting.value
  match setting.flag with
  | .help => .error .help
  | .libraryPath =>
    let directory := value.elim .unnamed SearchDirectory.named
    .ok { p with request := { request with searchPath := request.searchPath ++ [directory] } }
  | .require => .ok { p with request := { request with modules := request.modules ++ [value] } }
  | .verbose => .ok { p with request := { request with verbose := true } }

/-- The words with the file that the command line names. -/
def settle (p : Progress) (file : Option (List Char)) : Progress :=
  { p with
    request := { p.request with file := file.map String.ofList }
    fileSettled := true }

def reject (p : Progress) (text : List Char) : Progress := { p with extras := p.extras ++ [text] }

/-- The effect of words in order. The first operand is the file, and a divider next to it goes
with it. -/
def walk : List Word → Progress → Except Refusal Progress
  | [], p => .ok p
  | .unknown text :: rest, p => walk rest (p.reject text)
  | .operand text :: .divider :: rest, p =>
    walk rest (if p.fileSettled then (p.reject text).reject dividerText else p.settle (some text))
  | .operand text :: rest, p =>
    walk rest (if p.fileSettled then p.reject text else p.settle (some text))
  | .divider :: .operand text :: rest, p =>
    walk rest (if p.fileSettled then (p.reject dividerText).reject text else p.settle (some text))
  | .divider :: rest, p =>
    walk rest (if p.fileSettled then p.reject dividerText else p.settle none)
  | .flag flag isLong attached :: rest, p =>
    match settingsOf flag isLong attached with
    | .error complaint => .error (.complaint complaint)
    | .ok u =>
      match u.waiting with
      | none => (u.settings.foldlM apply p).bind (fun next => walk rest next)
      | some waiting =>
        match rest with
        | .operand text :: others =>
          ((u.settings ++ [Setting.mk waiting text]).foldlM apply p).bind
            (fun next => walk others next)
        | _ => .error (.complaint (.valueMissing waiting))

end Progress

/-- The request of a command line, if nothing is left over. -/
def Request.ofArguments (arguments : List String) : Except Refusal Request := do
  let words ← (Word.ofTexts (arguments.map String.toList)).mapError Refusal.complaint
  let p ← Progress.walk words {}
  if p.extras.isEmpty then return p.request
  else .error (.complaint (.unrecognized p.extras))

end ModuleLoader.CommandLine
