import Mathlib.Tactic.Common
import ModuleLoader.Path.Expansion

/-!
# When a path has an expansion

* `Text.Cuts`, `Text.cuts_cut`, `Text.Cuts.cut_eq` : the text before the first separator and the
  text behind it;
* `Path.NamesLogin`, `Path.Users.Answers` : the login that a path names, and an account that has it;
* `Path.Users.Refuses` : the logins that the account database does not take;
* `Path.Resolution`, `Path.resolution` : what becomes of a path that starts with a tilde;
* `Path.Expansion`, `Path.expansion` : what becomes of any path;
* `Path.expand_fails_iff` : the paths that have no expansion, and why;
* `Path.expand_nul_in_login` : a login with a NUL, for which there should be no home directory
  rather than a fault.
-/

namespace ModuleLoader

namespace Text

/-- The text before the first separator and the text behind it; the whole text, and nothing, where
there is no separator. -/
inductive Cuts (separator : List Char) : (text before after : List Char) → Prop where
  | whole {text : List Char} (absent : ¬ separator <:+: text) : Cuts separator text text []
  /-- No separator begins earlier, not even one that overlaps this one. -/
  | apart (before after : List Char)
      (first : ¬ separator <:+: before ++ separator.dropLast) :
      Cuts separator (before ++ separator ++ after) before after

variable {separator text before after : List Char}

/-- Every text begins with the empty separator, so that none is cut at it. -/
theorem Cuts.separator_ne_nil (h : Cuts separator text before after) : separator ≠ [] := by
  rintro rfl
  cases h with
  | whole absent => exact absent List.nil_infix
  | apart _ _ first => exact first List.nil_infix

/-- What may not hold an earlier separator stands at the front of the text. -/
theorem prefix_of_append_dropLast (before separator after : List Char) :
    before ++ separator.dropLast <+: before ++ separator ++ after := by
  have hdrop := List.dropLast_prefix separator
  rw [List.append_assoc]
  exact (List.prefix_append_right_inj before).2 (hdrop.trans (List.prefix_append separator after))

/-- A text is cut at its first separator. -/
theorem cuts_cut (hs : separator ≠ []) (text : List Char) :
    Cuts separator text (cut separator text).1 (cut separator text).2 := by
  induction text with
  | nil => exact .whole (fun h => hs (List.infix_nil.1 h))
  | cons c rest ih =>
    rw [cut]
    split
    · rename_i hfront
      obtain ⟨behind, hbehind⟩ := List.isPrefixOf_iff_prefix.1 hfront
      rw [← hbehind, List.drop_left]
      refine .apart [] behind (fun h => ?_)
      have hlength := h.length_le
      have hpos := List.length_pos_iff.2 hs
      rw [List.nil_append, List.length_dropLast] at hlength
      omega
    · rename_i hfront
      rw [List.isPrefixOf_iff_prefix] at hfront
      dsimp only
      generalize cut separator rest = parts at ih
      obtain ⟨before, after⟩ := parts
      cases ih with
      | whole absent =>
        refine .whole (fun h => ?_)
        exact (List.infix_cons_iff.1 h).elim hfront absent
      | apart _ _ first =>
        refine .apart (c :: before) after (fun h => ?_)
        rcases List.infix_cons_iff.1 h with h | h
        · exact hfront (h.trans (prefix_of_append_dropLast (c :: before) separator after))
        · exact first h

theorem Cuts.cut_eq (h : Cuts separator text before after) :
    cut separator text = (before, after) := by
  cases h with
  | whole absent =>
    induction text with
    | nil => rfl
    | cons c rest ih =>
      rw [List.infix_cons_iff, not_or, ← List.isPrefixOf_iff_prefix] at absent
      rw [cut, if_neg absent.1, ih absent.2]
  | apart before after first =>
    induction before with
    | nil =>
      have hs := (Cuts.apart _ after first).separator_ne_nil
      obtain ⟨c, rest, rfl⟩ := List.exists_cons_of_ne_nil hs
      have hfront : (c :: rest).isPrefixOf (c :: (rest ++ after)) :=
        List.isPrefixOf_iff_prefix.2 (List.prefix_append (c :: rest) after)
      rw [List.nil_append, List.cons_append, cut, if_pos hfront, ← List.cons_append,
        List.drop_left]
    | cons c before ih =>
      have hfront : ¬ separator.isPrefixOf (c :: (before ++ separator ++ after)) := by
        rw [List.isPrefixOf_iff_prefix]
        intro h
        refine first (List.IsPrefix.isInfix (List.prefix_of_prefix_length_le h ?_ ?_))
        · exact prefix_of_append_dropLast (c :: before) separator after
        · rw [List.length_append, List.length_dropLast, List.length_cons]
          omega
      rw [List.cons_append, List.cons_append, cut, if_neg hfront,
        ih (fun h => first (List.infix_cons h))]

end Text

namespace Path

/-! ## Which login, which account -/

/-- The path asks for the home directory of this login: a tilde, then the login up to the first
separator. -/
def NamesLogin (policy : Policy) (path : String) (login : List Char) : Prop :=
  ∃ named after, path.toList = '~' :: named ∧ Text.Cuts policy.separator.toList named login after

namespace Users

def Answers (users : Users) (login : List Char) (account : Account) : Prop :=
  ∃ accounts, users.accounts = some accounts ∧ account ∈ accounts ∧
    if login = [] then account.uid = users.uid else account.login.toList = login

/-- There is an account database, and it cannot be asked for what the path names. -/
inductive Refuses (users : Users) (policy : Policy) (path : String) : Fault → Prop where
  | emptySeparator (database : users.accounts ≠ none) (tilde : path.toList.head? = some '~')
      (separator : policy.separator = "") : Refuses users policy path .emptySeparator
  | nulInLogin (database : users.accounts ≠ none) {login : List Char}
      (names : NamesLogin policy path login) (nul : '\x00' ∈ login) :
      Refuses users policy path .nulInLogin

def Matches (users : Users) (policy : Policy) (path : String) : Prop :=
  ∃ login account, NamesLogin policy path login ∧ users.Answers login account

theorem home?_eq_some {users : Users} {accounts : List Account} {login : List Char}
    {directory : String} (haccounts : users.accounts = some accounts)
    (h : users.home? accounts login = some directory) :
    ∃ account, users.Answers login account ∧ account.home = directory := by
  obtain ⟨account, hfind, rfl⟩ := Option.map_eq_some_iff.1 h
  refine ⟨account, ⟨accounts, haccounts, List.mem_of_find?_eq_some hfind, ?_⟩, rfl⟩
  simpa using List.find?_some hfind

theorem home?_eq_none {users : Users} {accounts : List Account} {login : List Char}
    (haccounts : users.accounts = some accounts) (h : users.home? accounts login = none)
    (account : Account) : ¬ users.Answers login account := by
  rintro ⟨others, hothers, hmem, hwanted⟩
  obtain rfl : accounts = others := Option.some.inj (haccounts.symm.trans hothers)
  refine List.find?_eq_none.1 (Option.map_eq_none_iff.1 h) account hmem ?_
  simpa using hwanted

end Users

variable {users : Users} {policy : Policy} {path : String} {named : List Char}

/-! ## Home directories -/

/-- What becomes of a tilde and what follows it. -/
inductive Resolution (users : Users) (policy : Policy) (named : List Char) :
    Except HomeFailure Home → Prop where
  | noDatabase (database : users.accounts = none) :
      Resolution users policy named (.error .noDatabase)
  | emptySeparator (database : users.accounts ≠ none) (separator : policy.separator = "") :
      Resolution users policy named (.error (.fault .emptySeparator))
  | nulInLogin {login after : List Char} (database : users.accounts ≠ none)
      (cuts : Text.Cuts policy.separator.toList named login after) (nul : '\x00' ∈ login) :
      Resolution users policy named (.error (.fault .nulInLogin))
  | known {login after : List Char} {account : Account}
      (cuts : Text.Cuts policy.separator.toList named login after) (noNul : '\x00' ∉ login)
      (answers : users.Answers login account) :
      Resolution users policy named (.ok ⟨account.home, String.ofList after⟩)
  | unknown {login after : List Char}
      (cuts : Text.Cuts policy.separator.toList named login after) (noNul : '\x00' ∉ login)
      (nobody : ∀ account, ¬ users.Answers login account) :
      Resolution users policy named (.error (.unknownAccount (String.ofList login)))

theorem resolution (hpath : path.toList = '~' :: named) :
    Resolution users policy named (resolveHome users policy path) := by
  unfold resolveHome
  split
  · rename_i behind accounts htext haccounts
    obtain rfl : named = behind := (List.cons.inj (hpath.symm.trans htext)).2
    have hdatabase : users.accounts ≠ none := by simp [haccounts]
    split
    · rename_i hempty
      exact .emptySeparator hdatabase (String.isEmpty_iff.1 hempty)
    · rename_i hempty
      have hs : policy.separator.toList ≠ [] := by simpa using hempty
      have hcuts := Text.cuts_cut hs named
      dsimp only
      split
      · rename_i hnul
        exact .nulInLogin hdatabase hcuts (List.contains_iff_mem.1 hnul)
      · rename_i hnul
        rw [List.contains_iff_mem] at hnul
        split
        · rename_i directory hhome
          obtain ⟨account, hanswers, rfl⟩ := Users.home?_eq_some haccounts hhome
          exact .known hcuts hnul hanswers
        · rename_i hhome
          exact .unknown hcuts hnul (Users.home?_eq_none haccounts hhome)
  · rename_i haccounts
    exact .noDatabase haccounts
  · rename_i hnone htilde
    cases haccounts : users.accounts with
    | none => exact absurd haccounts (htilde named hpath)
    | some accounts => exact absurd haccounts (hnone named accounts hpath)

theorem NamesLogin.eq_of_cuts {login other after : List Char}
    (hpath : path.toList = '~' :: named) (h : NamesLogin policy path other)
    (cuts : Text.Cuts policy.separator.toList named login after) : other = login := by
  obtain ⟨behind, rest, htext, hcuts⟩ := h
  obtain rfl : named = behind := (List.cons.inj (hpath.symm.trans htext)).2
  exact congrArg Prod.fst (hcuts.cut_eq.symm.trans cuts.cut_eq)

theorem Users.Refuses.database {fault : Fault} (h : users.Refuses policy path fault) :
    users.accounts ≠ none := by
  cases h with
  | emptySeparator database => exact database
  | nulInLogin database => exact database

/-- Of the login that a path names, only a NUL can be refused. -/
theorem Users.Refuses.of_cuts {login after : List Char} {fault : Fault}
    (hpath : path.toList = '~' :: named) (h : users.Refuses policy path fault)
    (cuts : Text.Cuts policy.separator.toList named login after) :
    fault = .nulInLogin ∧ '\x00' ∈ login := by
  cases h with
  | emptySeparator _ _ separator =>
    exact absurd (String.toList_eq_nil_iff.2 separator) cuts.separator_ne_nil
  | nulInLogin _ names nul => exact ⟨rfl, names.eq_of_cuts hpath cuts ▸ nul⟩

/-- A path names no home directory by a fault exactly if the account database refuses it. -/
theorem Resolution.eq_fault_iff {result : Except HomeFailure Home}
    (hpath : path.toList = '~' :: named) (h : Resolution users policy named result)
    (fault : Fault) :
    result = .error (.fault fault) ↔ users.Refuses policy path fault := by
  cases h with
  | noDatabase database =>
    exact iff_of_false (fun h => by cases h) (fun h => h.database database)
  | emptySeparator database separator =>
    constructor
    · rintro ⟨⟩
      exact .emptySeparator database (by rw [hpath]; rfl) separator
    · intro h
      cases h with
      | emptySeparator => rfl
      | nulInLogin _ names _ =>
        obtain ⟨_, _, _, cuts⟩ := names
        exact absurd (String.toList_eq_nil_iff.2 separator) cuts.separator_ne_nil
  | nulInLogin database cuts nul =>
    constructor
    · rintro ⟨⟩
      exact .nulInLogin database ⟨_, _, hpath, cuts⟩ nul
    · intro h
      rw [(h.of_cuts hpath cuts).1]
  | known cuts noNul =>
    exact iff_of_false (fun h => by cases h) (fun h => noNul (h.of_cuts hpath cuts).2)
  | unknown cuts noNul =>
    exact iff_of_false (fun h => by cases h) (fun h => noNul (h.of_cuts hpath cuts).2)

/-- A path names a home directory exactly if the account database takes its login and has an
account for it. -/
theorem Resolution.isOk_iff {result : Except HomeFailure Home}
    (hpath : path.toList = '~' :: named) (h : Resolution users policy named result) :
    (∃ home, result = .ok home) ↔
      (∀ fault, ¬ users.Refuses policy path fault) ∧ users.Matches policy path := by
  have hfault (fault : Fault) := h.eq_fault_iff hpath fault
  cases h with
  | noDatabase database =>
    refine iff_of_false (fun ⟨_, h⟩ => by cases h) (fun ⟨_, _, _, _, answers⟩ => ?_)
    obtain ⟨accounts, haccounts, _⟩ := answers
    rw [database] at haccounts
    cases haccounts
  | emptySeparator | nulInLogin =>
    exact iff_of_false (fun ⟨_, h⟩ => by cases h) (fun h => h.1 _ ((hfault _).1 rfl))
  | known cuts _ answers =>
    refine iff_of_true ⟨_, rfl⟩ ⟨fun fault h => ?_, _, _, ⟨_, _, hpath, cuts⟩, answers⟩
    cases (hfault fault).2 h
  | unknown cuts _ nobody =>
    refine iff_of_false (fun ⟨_, h⟩ => by cases h) (fun ⟨_, login, account, names, answers⟩ => ?_)
    exact nobody account (names.eq_of_cuts hpath cuts ▸ answers)

theorem resolveHome_of_not_tilde (h : path.toList.head? ≠ some '~') :
    resolveHome users policy path = .error .noTilde := by
  unfold resolveHome
  split
  · rename_i htext _
    exact absurd (by rw [htext]; rfl) h
  · rename_i htext _
    exact absurd (by rw [htext]; rfl) h
  · rfl

theorem Users.Refuses.tilde {fault : Fault} (h : users.Refuses policy path fault) :
    path.toList.head? = some '~' := by
  cases h with
  | emptySeparator _ tilde => exact tilde
  | nulInLogin _ names =>
    obtain ⟨_, _, htext, _⟩ := names
    rw [htext]
    rfl

theorem resolveHome_eq_fault_iff (fault : Fault) :
    resolveHome users policy path = .error (.fault fault) ↔ users.Refuses policy path fault := by
  by_cases htilde : path.toList.head? = some '~'
  · obtain ⟨named, hpath⟩ := List.head?_eq_some_iff.1 htilde
    exact (resolution hpath).eq_fault_iff hpath fault
  · rw [resolveHome_of_not_tilde htilde]
    exact iff_of_false (fun h => by cases h) (fun h => htilde h.tilde)

theorem resolveHome_isOk_iff (htilde : path.toList.head? = some '~') :
    (∃ home, resolveHome users policy path = .ok home) ↔
      (∀ fault, ¬ users.Refuses policy path fault) ∧ users.Matches policy path := by
  obtain ⟨named, hpath⟩ := List.head?_eq_some_iff.1 htilde
  exact (resolution hpath).isOk_iff hpath

/-! ## Expansion -/

theorem separator_ne_of_not_rooted (h : ¬ policy.isRooted path) : policy.separator ≠ "" := by
  intro hempty
  refine h ?_
  rw [Policy.isRooted, hempty]
  rfl

theorem place_eq_ok (h : policy.separator ≠ "") (directory remainder : String) :
    ∃ spelling, place policy directory remainder = .ok spelling := by
  unfold place Policy.canonical
  rw [if_neg (fun hempty => h (String.isEmpty_iff.1 hempty))]
  split
  · exact ⟨_, rfl⟩
  · exact ⟨_, rfl⟩

/-- What becomes of a path. -/
inductive Expansion (users : Users) (workingDirectory : Option String) (policy : Policy)
    (path : String) : Except Failure String → Prop where
  | rooted (rooted : policy.isRooted path) : Expansion users workingDirectory policy path (.ok path)
  | home {home : Home} (relative : ¬ policy.isRooted path) (tilde : path.toList.head? = some '~')
      (resolves : resolveHome users policy path = .ok home) (spelling : String) :
      Expansion users workingDirectory policy path (.ok spelling)
  | refused {fault : Fault} (relative : ¬ policy.isRooted path)
      (resolves : resolveHome users policy path = .error (.fault fault)) :
      Expansion users workingDirectory policy path (.error (.fault fault))
  | noHome {reason : HomeFailure} (relative : ¬ policy.isRooted path)
      (tilde : path.toList.head? = some '~') (noFault : ∀ fault, reason ≠ .fault fault)
      (resolves : resolveHome users policy path = .error reason) :
      Expansion users workingDirectory policy path (.error (.noHome reason))
  | relative (relative : ¬ policy.isRooted path) (noTilde : path.toList.head? ≠ some '~')
      (directory : workingDirectory ≠ none) (spelling : String) :
      Expansion users workingDirectory policy path (.ok spelling)
  | noWorkingDirectory (relative : ¬ policy.isRooted path)
      (noTilde : path.toList.head? ≠ some '~') (directory : workingDirectory = none) :
      Expansion users workingDirectory policy path (.error .noWorkingDirectory)

theorem expansion (users : Users) (workingDirectory : Option String) (policy : Policy)
    (path : String) :
    Expansion users workingDirectory policy path (expand users workingDirectory policy path) := by
  unfold expand
  split
  · rename_i hrooted
    exact .rooted hrooted
  · rename_i hrooted
    have hplace := place_eq_ok (separator_ne_of_not_rooted hrooted)
    split
    · rename_i htilde
      split
      · rename_i home hresolve
        obtain ⟨spelling, hspelling⟩ := hplace home.directory home.remainder
        rw [hspelling]
        exact .home hrooted htilde hresolve spelling
      · rename_i fault hresolve
        exact .refused hrooted hresolve
      · rename_i reason hother hresolve
        exact .noHome hrooted htilde hother hresolve
    · rename_i htilde
      split
      · rename_i directory
        obtain ⟨spelling, hspelling⟩ := hplace directory path
        rw [hspelling]
        exact .relative hrooted htilde (Option.some_ne_none directory) spelling
      · exact .noWorkingDirectory hrooted htilde rfl

variable {workingDirectory : Option String} {result : Except Failure String}

namespace Expansion

theorem eq_fault_iff (h : Expansion users workingDirectory policy path result) (fault : Fault) :
    result = .error (.fault fault) ↔
      ¬ policy.isRooted path ∧ users.Refuses policy path fault := by
  rw [← resolveHome_eq_fault_iff]
  cases h with
  | rooted rooted => exact iff_of_false (fun h => by cases h) (fun h => h.1 rooted)
  | refused relative resolves => simp [relative, resolves]
  | home _ _ resolves => simp [resolves]
  | noHome _ _ noFault resolves => simp [resolves, noFault]
  | relative _ noTilde | noWorkingDirectory _ noTilde => simp [resolveHome_of_not_tilde noTilde]

theorem eq_noHome_iff (h : Expansion users workingDirectory policy path result) :
    (∃ reason, result = .error (.noHome reason)) ↔
      ¬ policy.isRooted path ∧ path.toList.head? = some '~' ∧
        (∀ fault, ¬ users.Refuses policy path fault) ∧ ¬ users.Matches policy path := by
  cases h with
  | rooted rooted => exact iff_of_false (fun ⟨_, h⟩ => by cases h) (fun h => h.1 rooted)
  | refused relative resolves =>
    have hrefuses := (resolveHome_eq_fault_iff _).1 resolves
    exact iff_of_false (fun ⟨_, h⟩ => by cases h) (fun h => h.2.2.1 _ hrefuses)
  | home _ tilde resolves =>
    have hmatches := ((resolveHome_isOk_iff tilde).1 ⟨_, resolves⟩).2
    exact iff_of_false (fun ⟨_, h⟩ => by cases h) (fun h => h.2.2.2 hmatches)
  | noHome relative tilde noFault resolves =>
    have hrefuses (fault : Fault) : ¬ users.Refuses policy path fault := by
      rw [← resolveHome_eq_fault_iff, resolves]
      exact fun h => noFault fault (Except.error.inj h)
    refine iff_of_true ⟨_, rfl⟩ ⟨relative, tilde, hrefuses, fun hmatches => ?_⟩
    obtain ⟨home, hhome⟩ := (resolveHome_isOk_iff tilde).2 ⟨hrefuses, hmatches⟩
    rw [resolves] at hhome
    cases hhome
  | relative _ noTilde | noWorkingDirectory _ noTilde =>
    exact iff_of_false (fun ⟨_, h⟩ => by cases h) (fun h => noTilde h.2.1)

theorem eq_noWorkingDirectory_iff (h : Expansion users workingDirectory policy path result) :
    result = .error .noWorkingDirectory ↔
      ¬ policy.isRooted path ∧ path.toList.head? ≠ some '~' ∧ workingDirectory = none := by
  cases h with
  | rooted rooted => exact iff_of_false (fun h => by cases h) (fun h => h.1 rooted)
  | refused relative resolves =>
    have htilde := ((resolveHome_eq_fault_iff _).1 resolves).tilde
    exact iff_of_false (fun h => by cases h) (fun h => h.2.1 htilde)
  | home _ tilde | noHome _ tilde =>
    exact iff_of_false (fun h => by cases h) (fun h => h.2.1 tilde)
  | relative _ _ directory => exact iff_of_false (fun h => by cases h) (fun h => directory h.2.2)
  | noWorkingDirectory relative noTilde directory =>
    exact iff_of_true rfl ⟨relative, noTilde, directory⟩

end Expansion

/-- A path has an expansion, or it has none for one of two reasons, or it cannot be taken apart:
this only where the account database is asked for a login that it refuses. -/
theorem expand_fails_iff (users : Users) (workingDirectory : Option String) (policy : Policy)
    (path : String) :
    (∀ fault, resolveHome users policy path = .error (.fault fault) ↔
        users.Refuses policy path fault) ∧
      (∀ fault, expand users workingDirectory policy path = .error (.fault fault) ↔
        ¬ policy.isRooted path ∧ users.Refuses policy path fault) ∧
      ((∃ reason, expand users workingDirectory policy path = .error (.noHome reason)) ↔
        ¬ policy.isRooted path ∧ path.toList.head? = some '~' ∧
          (∀ fault, ¬ users.Refuses policy path fault) ∧ ¬ users.Matches policy path) ∧
      (expand users workingDirectory policy path = .error .noWorkingDirectory ↔
        ¬ policy.isRooted path ∧ path.toList.head? ≠ some '~' ∧ workingDirectory = none) := by
  have h := expansion users workingDirectory policy path
  exact ⟨resolveHome_eq_fault_iff, h.eq_fault_iff, h.eq_noHome_iff, h.eq_noWorkingDirectory_iff⟩

/-- A login with a NUL is refused where there should be no home directory for it. -/
theorem expand_nul_in_login :
    resolveHome ⟨1000, some [⟨"me", 1000, "/home/me"⟩]⟩ .standard "~a\x00b" =
        .error (.fault .nulInLogin) ∧
      expand ⟨1000, some [⟨"me", 1000, "/home/me"⟩]⟩ (some "/work") .standard "~a\x00b" =
        .error (.fault .nulInLogin) :=
  ⟨by decide, by decide⟩

end Path

end ModuleLoader
