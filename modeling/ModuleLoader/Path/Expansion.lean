import ModuleLoader.Path.Canonical

/-!
# Expansion

A path that is not rooted is taken relative to a home directory when it starts with a tilde, and
to the working directory otherwise.

* `Account`, `Users` : the account database and the user who asks it;
* `Users.home?` : the home directory of a login name, or of the user when the name is empty;
* `HomeFailure`, `resolveHome` : the home directory that a tilde path names, and what follows it;
* `Failure`, `expand` : the expanded path.
-/

namespace ModuleLoader.Path

structure Account where
  login : String
  uid : Int
  home : String
  deriving DecidableEq, Repr

/-- The invoking user and the account database, if the platform has one. -/
structure Users where
  uid : Int
  accounts : Option (List Account)
  deriving DecidableEq, Repr

/-- The home directory of the first account with this login, or with the user's id when the
login is empty. -/
def Users.home? (users : Users) (accounts : List Account) (login : List Char) : Option String :=
  let wanted (account : Account) : Bool :=
    if login.isEmpty then account.uid == users.uid else account.login.toList == login
  (accounts.find? wanted).map Account.home

inductive HomeFailure where
  /-- The path does not start with a tilde. -/
  | noTilde
  /-- The platform has no account database. -/
  | noDatabase
  /-- No account has this login; the empty login is the user's own. -/
  | unknownAccount (login : String)
  /-- The path cannot be read. -/
  | fault (fault : Fault)
  deriving DecidableEq, Repr

/-- A home directory and the path inside it. -/
structure Home where
  directory : String
  remainder : String
  deriving DecidableEq, Repr

/-- The home directory that a tilde path names: the tilde, a login name up to the separator, and
the path inside the directory. -/
def resolveHome (users : Users) (policy : Policy) (path : String) :
    Except HomeFailure Home :=
  match path.toList, users.accounts with
  | '~' :: named, some accounts =>
    if policy.separator.isEmpty then .error (.fault .emptySeparator)
    else
      let (login, remainder) := Text.cut policy.separator.toList named
      if login.contains '\x00' then .error (.fault .nulInLogin)
      else
        match users.home? accounts login with
        | some directory => .ok ⟨directory, String.ofList remainder⟩
        | none => .error (.unknownAccount (String.ofList login))
  | '~' :: _, none => .error .noDatabase
  | _, _ => .error .noTilde

inductive Failure where
  /-- It starts with a tilde and names no home directory. -/
  | noHome (reason : HomeFailure)
  /-- It is relative and there is no working directory. -/
  | noWorkingDirectory
  /-- It cannot be taken apart. -/
  | fault (fault : Fault)
  deriving DecidableEq, Repr

/-- The path inside a directory, canonically spelled; the directory as it stands when nothing
follows. -/
def place (policy : Policy) (directory remainder : String) : Except Failure String :=
  if remainder.isEmpty then .ok directory
  else (policy.canonical (policy.join directory remainder)).mapError Failure.fault

/-- The expanded path. A rooted path is returned as it is. -/
def expand (users : Users) (workingDirectory : Option String) (policy : Policy)
    (path : String) : Except Failure String :=
  if policy.isRooted path then .ok path
  else if path.toList.head? = some '~' then
    match resolveHome users policy path with
    | .ok home => place policy home.directory home.remainder
    | .error (.fault fault) => .error (.fault fault)
    | .error reason => .error (.noHome reason)
  else
    match workingDirectory with
    | some directory => place policy directory path
    | none => .error .noWorkingDirectory

end ModuleLoader.Path
