import ModuleLoader.Proofs.Canonical

/-!
# Expanded paths

A relative path is expanded behind the working directory, and one with a tilde behind a home
directory. The expanded path is absolute and leads to the file that the path led to, wherever the
program goes later.

* `Path.IsPlain` : an absolute path without `.`, `..` and empty segments;
* `IsPlain.resolve`, `IsPlain.walk` : the place that such a path names is the one that it leads to;
* `Path.Users.Knows` : the account database knows the home directory of a login;
* `locate_beneath` : a path leads from a directory where it leads behind it;
* `exists_place` : what leads somewhere behind a plain directory leads there when it is expanded;
* `expand_sameFile` : expanded paths are absolute and name the same files.
-/

namespace ModuleLoader

open ModuleLoader.Path (Segment)

namespace Path

structure IsName (segment : Segment) : Prop where
  proper : IsProper segment
  down : segment ≠ parent
  whole : '/' ∉ segment

theorem IsName.not_idle {segment : Segment} (h : IsName segment) :
    ¬ (segment = [] ∨ segment = current) := by
  rw [not_or]
  exact h.proper

/-- An absolute path without `.`, `..` and empty segments. The root is one. -/
def IsPlain (path : String) : Prop :=
  ∃ names : List Segment, path.toList = '/' :: Text.join ['/'] names ∧ ∀ name ∈ names, IsName name

/-- The account database knows the home directory of a login, which holds no NUL; the empty login
is the user's own. -/
structure Users.Knows (users : Users) (login : List Char) (home : String) : Prop where
  known : ∃ accounts, users.accounts = some accounts ∧ users.home? accounts login = some home
  noNul : '\x00' ∉ login

/-! ## Plain directories -/

section Plain
variable {names : List Segment} (hnames : ∀ name ∈ names, IsName name)

theorem properSegments_append (directory rest : List Char) :
    properSegments (directory ++ '/' :: rest) =
      properSegments directory ++ properSegments rest := by
  simp only [properSegments_eq, Text.split_append_cons, proper_append]

include hnames

theorem split_join_names :
    Text.split ['/'] (Text.join ['/'] names) = if names = [] then [[]] else names := by
  split
  · rename_i h
    rw [h]
    rfl
  · rename_i h
    exact Text.split_join '/' h (fun name hn => (hnames name hn).whole)

theorem proper_names : proper names = names :=
  List.filter_eq_self.2 (fun name hn => by simpa using (hnames name hn).proper)

theorem properSegments_plain : properSegments ('/' :: Text.join ['/'] names) = names := by
  rw [properSegments_cons, properSegments_eq, split_join_names hnames]
  split
  · rename_i h
    rw [h]
    rfl
  · exact proper_names hnames

theorem foldl_step (base : Place) : names.foldl Place.step base = base ++ names := by
  induction names generalizing base with
  | nil => simp
  | cons name names ih =>
      have hname := hnames name List.mem_cons_self
      have hstep : Place.step base name = base ++ [name] := by
        rw [Place.step, if_neg hname.not_idle, if_neg hname.down]
      rw [List.foldl_cons, hstep, ih (fun n hn => hnames n (List.mem_cons_of_mem _ hn))]
      simp

theorem resolve_plain : Place.resolve [] ('/' :: Text.join ['/'] names) = names := by
  have hfoldl : (Text.split ['/'] (Text.join ['/'] names)).foldl Place.step [] = names := by
    rw [split_join_names hnames]
    split
    · rename_i h
      rw [h]
      rfl
    · rw [foldl_step hnames, List.nil_append]
  simp only [Place.resolve, List.head?_cons, if_true]
  rw [Text.split_cons, if_pos rfl]
  exact hfoldl

theorem walk_names {files : FileSystem} {place stop : Place}
    (h : files.walk place names = .ok stop) : stop = place ++ names := by
  induction names generalizing place with
  | nil =>
      rw [FileSystem.walk] at h
      rw [List.append_nil]
      exact (Except.ok.inj h).symm
  | cons name names ih =>
      have hname := hnames name List.mem_cons_self
      rw [FileSystem.walk, FileSystem.directory_of_walk h] at h
      simp only [hname.not_idle, hname.down, if_false] at h
      split at h
      · cases h
      · split at h
        · cases h
        · rw [ih (fun n hn => hnames n (List.mem_cons_of_mem _ hn)) h]
          simp

theorem Regular.of_plain {path : List Char} (hne : names ≠ []) (hhead : path.head? ≠ some '/')
    (hsingle : ¬ ['/', '/'] <:+: path) :
    Regular 1 ('/' :: Text.join ['/'] names ++ '/' :: path) [[]]
      (names ++ Text.split ['/'] path) := by
  have hsplit : Text.split ['/'] ('/' :: Text.join ['/'] names ++ '/' :: path) =
      [] :: (names ++ Text.split ['/'] path) := by
    rw [Text.split_append_cons, Text.split_cons, if_pos rfl, split_join_names hnames, if_neg hne,
      List.cons_append]
  refine ⟨.root, fun s hs => ?_, hsplit, by rw [hsplit]; rfl, ?_⟩
  · rw [List.dropLast_append_of_ne_nil (Text.split_ne_nil _ _)] at hs
    rcases List.mem_append.1 hs with hs | hs
    · exact (hnames s hs).proper.1
    · exact ne_nil_of_single hhead hsingle s hs
  · have hpieces : ∀ name ∈ names, name ≠ [] ∧ '/' ∉ name := fun name hn =>
      ⟨(hnames name hn).proper.1, (hnames name hn).whole⟩
    have hjoin : Text.join ['/'] names ≠ [] := by
      rw [Ne, join_eq_nil, not_or]
      refine ⟨hne, fun hone => ?_⟩
      exact (hpieces [] (hone ▸ List.mem_singleton_self _)).1 rfl
    have hslash := head?_join hpieces
    obtain ⟨c, more, htext⟩ := List.exists_cons_of_ne_nil hjoin
    rw [htext] at hslash ⊢
    have hc : c ≠ '/' := by simpa using hslash
    simp [leadingSlashes, hc]

theorem exists_regular {path : List Char} (hhead : path.head? ≠ some '/') (hpath : path ≠ [])
    (hsingle : ¬ ['/', '/'] <:+: path) :
    ∃ n kept rest, Regular n ('/' :: Text.join ['/'] names ++ '/' :: path) kept rest := by
  by_cases hne : names = []
  · rw [hne]
    exact ⟨_, _, _, Regular.of_doubled hhead hpath hsingle⟩
  · exact ⟨_, _, _, Regular.of_plain hnames hne hhead hsingle⟩

end Plain

end Path

/-! ## Lookups behind a directory -/

namespace FileSystem
open ModuleLoader.Path (IsName)

variable {files : FileSystem} {names : List Segment} {path : List Char} {place : Place}

theorem locate_of_rooted (hhead : path.head? = some '/') (workingDirectory later : Option Place) :
    files.locate later (tidy path) = files.locate workingDirectory (tidy path) := by
  rw [locate_eq, locate_eq, origin?, origin?, if_pos ((head?_tidy path).2 hhead),
    if_pos ((head?_tidy path).2 hhead)]

/-- What a path leads to from a plain directory, it leads to behind that directory. -/
theorem locate_beneath {workingDirectory : Option Place} (hnames : ∀ name ∈ names, IsName name)
    (hhead : path.head? ≠ some '/') {directory : Place}
    (hdirectory :
      files.locate workingDirectory (tidy ('/' :: Text.join ['/'] names)) = .ok directory)
    (h : files.locate (some names) (tidy path) = .ok place)
    (hsize : Text.Utf8.size ('/' :: Text.join ['/'] names ++ '/' :: path) < pathLimit) :
    files.locate workingDirectory (tidy ('/' :: Text.join ['/'] names ++ '/' :: path)) =
      .ok place := by
  rw [locate_tidy_iff] at hdirectory h ⊢
  obtain ⟨hoverdirectory, root, hroot, hrootnode, hwalk⟩ := hdirectory
  obtain ⟨hpath, start, hstart, hstartnode, hrest⟩ := h
  obtain rfl : [] = root := Option.some.inj hroot
  obtain rfl : names = start := by
    rw [origin?, if_neg hhead] at hstart
    exact Option.some.inj hstart
  have hplain := Path.properSegments_plain hnames
  have hsegments := Path.properSegments_append ('/' :: Text.join ['/'] names) path
  rw [hplain] at hwalk hsegments
  obtain rfl : directory = names := Path.walk_names hnames hwalk
  refine ⟨⟨?_, ?_⟩, [], rfl, hrootnode, ?_⟩
  · rw [nul_mem_tidy, hsegments]
    rintro ⟨segment, hs, hnul⟩
    rcases List.mem_append.1 hs with hs | hs
    · exact hoverdirectory.noNul ((nul_mem_tidy _).2 ⟨segment, hplain.symm ▸ hs, hnul⟩)
    · exact hpath.noNul ((nul_mem_tidy _).2 ⟨segment, hs, hnul⟩)
  · exact Nat.lt_of_le_of_lt (size_tidy_le (List.cons_ne_nil _ _)) hsize
  · rw [hsegments, walk_append, hwalk]
    exact hrest

theorem locate_without_slash {workingDirectory : Option Place}
    (hnames : ∀ name ∈ names, IsName name)
    (h : files.locate workingDirectory (tidy ('/' :: Text.join ['/'] names ++ ['/'])) =
      .ok place) :
    files.locate workingDirectory (tidy ('/' :: Text.join ['/'] names)) = .ok place := by
  have hhead : (Text.join ['/'] names).head? ≠ some '/' :=
    head?_join (fun name hn => ⟨(hnames name hn).proper.1, (hnames name hn).whole⟩)
  have hslashes : (leadingSlashes ('/' :: Text.join ['/'] names)).length ≤
      (leadingSlashes ('/' :: Text.join ['/'] names ++ ['/'])).length := by
    refine Nat.le_trans (Path.leadingSlashes_replicate 1 hhead).1 ?_
    rcases leadingSlashes_cases ('/' :: Text.join ['/'] names ++ ['/']) with
      ⟨hroot, -⟩ | ⟨-, hlead | hlead⟩
    · exact absurd rfl hroot
    · rw [hlead]
      exact Nat.le_refl _
    · rw [hlead]
      exact Nat.le_succ _
  have hsegments := Path.properSegments_append ('/' :: Text.join ['/'] names) []
  rw [show properSegments [] = [] from rfl, List.append_nil] at hsegments
  rw [locate_tidy_iff] at h ⊢
  rw [hsegments] at h
  exact ⟨h.1.mono (hsegments ▸ List.Sublist.refl _) hslashes, h.2⟩

end FileSystem

/-! ## Expansion -/

namespace Path

theorem toList_joined {directory : String} {names : List Segment}
    (h : directory.toList = '/' :: Text.join ['/'] names) (path : String) :
    (directory ++ "/" ++ path).toList = '/' :: Text.join ['/'] names ++ '/' :: path.toList := by
  rw [String.toList_append, String.toList_append, h, List.append_assoc]
  rfl

/-- What a remainder leads to behind a plain directory, the two put together lead to, from any
working directory. -/
theorem exists_place {directory remainder : String} (hplain : IsPlain directory)
    (hhead : remainder.toList.head? ≠ some '/') (hsingle : ¬ ['/', '/'] <:+: remainder.toList) :
    ∃ expanded, place .standard directory remainder = .ok expanded ∧
      expanded.toList.head? = some '/' ∧
      ∀ (system : System) (later : Option String) (stop : Place),
        system.locate (directory ++ "/" ++ remainder) = .ok stop →
          System.locate { system with workingDirectory := later } expanded = .ok stop := by
  obtain ⟨names, hdirectory, hnames⟩ := hplain
  have hjoined := toList_joined hdirectory remainder
  unfold System.locate
  by_cases hempty : remainder.toList = []
  · have hroot : directory.toList.head? = some '/' := by
      rw [hdirectory]
      rfl
    refine ⟨directory, ?_, hroot, fun system later stop hlocate => ?_⟩
    · simp [place, String.toList_eq_nil_iff.1 hempty]
    · rw [hjoined, hempty] at hlocate
      rw [FileSystem.locate_of_rooted hroot, hdirectory]
      exact FileSystem.locate_without_slash hnames hlocate
  · obtain ⟨n, kept, rest, hregular⟩ := exists_regular hnames hhead hempty hsingle
    have hne : '/' :: Text.join ['/'] names ++ '/' :: remainder.toList ≠ [] := List.cons_ne_nil _ _
    have hroot := (hregular.head?_canonicalText hne).2 rfl
    rw [← hjoined] at hregular hne hroot
    refine ⟨String.ofList (canonicalText ['/'] (n != 0) (directory ++ "/" ++ remainder).toList),
      ?_, ?_, fun system later stop hlocate => ?_⟩
    · have hsome : ¬ remainder.isEmpty := by simpa [← String.toList_eq_nil_iff] using hempty
      have hjoin : Policy.standard.join directory remainder = directory ++ "/" ++ remainder := rfl
      rw [place, if_neg hsome, hjoin, Policy.standard_canonical, hregular.head?_beq]
      rfl
    · rwa [String.toList_ofList]
    · rw [String.toList_ofList, FileSystem.locate_of_rooted hroot]
      exact FileSystem.locate_canonicalText hregular hne hlocate

end Path

theorem System.locate_beneath {system : System} {directory path : String} {stop : Place}
    (hworking : system.workingDirectory = some directory) (hplain : Path.IsPlain directory)
    (hdirectory : system.isDirectory directory) (hslash : path.toList.head? ≠ some '/')
    (hsize : Text.Utf8.size (directory ++ "/" ++ path).toList < FileSystem.pathLimit)
    (h : system.locate path = .ok stop) : system.locate (directory ++ "/" ++ path) = .ok stop := by
  obtain ⟨names, htext, hnames⟩ := hplain
  obtain ⟨place, hplace, -⟩ := FileSystem.find_eq_ok_iff.1 hdirectory
  have hstart : system.place? = some names := by
    rw [place?, hworking, Option.map_some, htext, Path.resolve_plain hnames]
  have hjoined := Path.toList_joined htext path
  rw [locate] at h ⊢
  rw [hstart] at h
  rw [htext] at hplace
  rw [hjoined] at hsize ⊢
  exact FileSystem.locate_beneath hnames hslash hplace h hsize

theorem Text.cut_append {login : List Char} (h : '/' ∉ login) (rest : List Char) :
    Text.cut ['/'] (login ++ '/' :: rest) = (login, rest) := by
  induction login with
  | nil => simp [Text.cut]
  | cons c login ih =>
      have hc : '/' ≠ c := fun hc => h (hc ▸ List.mem_cons_self)
      rw [List.cons_append, Text.cut, ih (fun hmem => h (List.mem_cons_of_mem _ hmem))]
      simp [hc]

namespace System
variable {system : System}

theorem expand_relative {directory path : String} (h : system.workingDirectory = some directory)
    (hslash : path.toList.head? ≠ some '/') (htilde : path.toList.head? ≠ some '~') :
    system.expand path = Path.place .standard directory path := by
  unfold expand Path.expand
  rw [Path.Policy.standard_isRooted]
  simp [hslash, htilde, h]

/-- A path with a tilde is expanded behind the home directory. -/
theorem expand_tilde {login rest home : String}
    (hknows : system.users.Knows login.toList home) (hlogin : '/' ∉ login.toList) :
    system.expand ("~" ++ login ++ "/" ++ rest) = Path.place .standard home rest := by
  obtain ⟨⟨accounts, haccounts, hhome⟩, hnul⟩ := hknows
  have htext : ("~" ++ login ++ "/" ++ rest).toList =
      '~' :: (login.toList ++ '/' :: rest.toList) := by
    simp
  have hresolve : Path.resolveHome system.users .standard ("~" ++ login ++ "/" ++ rest) =
      .ok ⟨home, rest⟩ := by
    unfold Path.resolveHome
    rw [htext, haccounts]
    have hcut := Text.cut_append hlogin rest.toList
    simp [Path.Policy.standard, hcut, hnul, hhome]
  unfold expand Path.expand
  rw [Path.Policy.standard_isRooted, hresolve, htext]
  rfl

end System

/-- A system whose working directory is the root, with a script there and one in a home
directory. -/
def settled : System :=
  let bare :=
    { System.bare (some "/") with users := ⟨1000, some [⟨"me", 1000, "/home/me"⟩]⟩ }
  let script := Node.file ⟨some (Text.Utf8.encode "Print(1)".toList), .opens none none⟩
  (bare.write "b/f" script).write "home/me/x" script

end ModuleLoader
