import ModuleLoader.Proofs.Lookup

/-!
# Paths taken apart and put together

A path is its directory and its base with the separator between them, as long as its last separator
stands neither first nor last. Where it does not come back, a file is still found under both
spellings.

* `Path.without_or_parted` : a path has no separator, or a last one;
* `Path.baseText?_of_not_mem`, `baseText?_append`, `Path.dirText_of_not_mem`, `dirText_append` :
  the two parts in either case;
* `Path.dirName_join`, `baseName?_join`, `join_parts` : the parts of a joined path, and the path
  joined of its parts;
* `FileSystem.size_le_of_walk` : no name on the way to a file is too long;
* `FileSystem.isFile_current`, `locate_doubled`, `isFile_doubled` : a `.` in front, and a second
  slash at the root, lead to the same file;
* `join_dirName_baseName` : splitting and joining undo each other.
-/

namespace ModuleLoader

namespace Path

variable {s : Char} {before after path : List Char}

/-! ## The two parts -/

theorem without_or_parted (s : Char) (path : List Char) :
    s ∉ path ∨ ∃ before after, path = before ++ s :: after ∧ s ∉ after := by
  induction path with
  | nil => exact Or.inl List.not_mem_nil
  | cons c rest ih =>
    rcases ih with hrest | ⟨before, after, rfl, hafter⟩
    · by_cases hc : s = c
      · exact Or.inr ⟨[], rest, by rw [hc, List.nil_append], hrest⟩
      · exact Or.inl (by simp [hc, hrest])
    · exact Or.inr ⟨c :: before, after, rfl, hafter⟩

theorem baseText?_of_not_mem (h : s ∉ path) : baseText? [s] path = some path := by
  unfold baseText?
  rw [Text.lastIndex?_of_not_mem h]

theorem dirText_of_not_mem (h : s ∉ path) : dirText [s] path = current := by
  unfold dirText
  rw [Text.lastIndex?_of_not_mem h]

/-- What stands behind the last separator is the base, unless nothing does. -/
theorem baseText?_append (before : List Char) (h : s ∉ after) :
    baseText? [s] (before ++ s :: after) = if after = [] then none else some after := by
  have hdrop : (before ++ s :: after).drop (before.length + 1) = after := by simp
  have hends : before.length + 1 = (before ++ s :: after).length ↔ after = [] := by simp
  unfold baseText?
  rw [Text.lastIndex?_append before h]
  simp only [hdrop, hends]

/-- What stands before the last separator is the directory; the root is the separator itself. -/
theorem dirText_append (before : List Char) (h : s ∉ after) :
    dirText [s] (before ++ s :: after) = if before = [] then [s] else before := by
  unfold dirText
  rw [Text.lastIndex?_append before h]
  cases before with
  | nil => rfl
  | cons c before => simp

/-! ## Joined paths -/

variable {policy : Policy} {directory name text : String}

theorem toList_join (policy : Policy) (directory name : String) :
    (policy.join directory name).toList =
      directory.toList ++ (policy.separator.toList ++ name.toList) := by
  rw [Policy.join, String.toList_append, String.toList_append, List.append_assoc]

theorem dirName_join (hpolicy : policy.separator.toList = [s]) (hdirectory : directory ≠ "")
    (hname : s ∉ name.toList) : policy.dirName (policy.join directory name) = directory := by
  have hne : directory.toList ≠ [] := fun h => hdirectory (String.toList_eq_nil_iff.1 h)
  unfold Policy.dirName
  rw [toList_join, hpolicy, List.singleton_append, dirText_append _ hname, if_neg hne,
    String.ofList_toList]

theorem baseName?_join (hpolicy : policy.separator.toList = [s]) (hne : name ≠ "")
    (hname : s ∉ name.toList) : policy.baseName? (policy.join directory name) = some name := by
  have hne : name.toList ≠ [] := fun h => hne (String.toList_eq_nil_iff.1 h)
  unfold Policy.baseName?
  rw [toList_join, hpolicy, List.singleton_append, baseText?_append _ hname, if_neg hne,
    Option.map_some, String.ofList_toList]

/-- The path comes back from its parts when its last separator is neither first nor last. -/
theorem join_parts (hpolicy : policy.separator.toList = [s])
    (hpath : text.toList = before ++ s :: after) (hafter : s ∉ after) (hbefore : before ≠ [])
    (hname : after ≠ []) :
    ∃ base, policy.baseName? text = some base ∧
      policy.join (policy.dirName text) base = text := by
  refine ⟨String.ofList after, ?_, ?_⟩
  · unfold Policy.baseName?
    rw [hpath, hpolicy, baseText?_append before hafter, if_neg hname, Option.map_some]
  · apply String.toList_injective
    unfold Policy.dirName
    rw [toList_join, hpolicy, List.singleton_append, hpath, dirText_append before hafter,
      if_neg hbefore, String.toList_ofList, String.toList_ofList]

end Path

/-! ## Files -/

namespace FileSystem

/-- No name that a walk comes through is too long. -/
theorem size_le_of_walk {files : FileSystem} {place stop : Place} {segments : List Path.Segment}
    (h : files.walk place segments = .ok stop) :
    ∀ segment ∈ segments, Text.Utf8.size segment ≤ nameLimit := by
  induction segments generalizing place with
  | nil => exact fun _ hs => absurd hs List.not_mem_nil
  | cons segment rest ih =>
    rw [walk, directory_of_walk h] at h
    dsimp only at h
    split_ifs at h with hlong
    all_goals
      intro other hother
      rcases List.mem_cons.1 hother with rfl | hother
      · exact Nat.le_of_not_lt hlong
      · exact ih h other hother

theorem isFile_iff {files : FileSystem} {workingDirectory : Option Place} {path : List Char} :
    files.isFile workingDirectory path ↔
      ∃ file, files.find workingDirectory (tidy path) = .ok (.file file) := by
  unfold isFile
  split
  · rename_i file hfind
    exact iff_of_true rfl ⟨file, hfind⟩
  · rename_i hother
    refine iff_of_false Bool.false_ne_true ?_
    rintro ⟨file, hfind⟩
    exact hother file hfind

variable (files : FileSystem) (workingDirectory : Option Place) (path : List Char)

theorem isFile_current (h : '/' ∉ path) :
    files.isFile workingDirectory ('.' :: '/' :: path) = files.isFile workingDirectory path := by
  have hsegments : properSegments ('.' :: '/' :: path) = properSegments path := by
    unfold properSegments
    have hsplit := Text.split_append_cons '/' ['.'] path
    rw [List.singleton_append] at hsplit
    rw [hsplit, List.filter_append]
    rfl
  have hslashes : leadingSlashes ('.' :: '/' :: path) = leadingSlashes path := by
    rcases leadingSlashes_cases path with ⟨-, hlead⟩ | ⟨hhead, -⟩
    · rw [hlead]
      rfl
    · exact absurd (List.mem_of_head? hhead) h
  unfold isFile tidy
  rw [hsegments, hslashes]

theorem leadingSlashes_root (h : '/' ∉ path) :
    leadingSlashes ('/' :: path) = ['/'] ∧ leadingSlashes ('/' :: '/' :: path) = ['/', '/'] := by
  cases path with
  | nil => exact ⟨rfl, rfl⟩
  | cons c rest =>
    have hc : c ≠ '/' := fun hc => h (hc ▸ List.mem_cons_self)
    simp [leadingSlashes, hc]

/-- What a walk through a single name goes through is short. -/
theorem size_join_le_of_walk {files : FileSystem} {start stop : Place} (h : '/' ∉ path)
    (hwalk : files.walk start (properSegments path) = .ok stop) :
    Text.Utf8.size (Text.join ['/'] (properSegments path)) ≤ nameLimit := by
  have hnames := size_le_of_walk hwalk
  have hsegments : properSegments path = [path] ∨ properSegments path = [] := by
    rw [properSegments, Text.split_of_not_mem '/' h, List.filter_cons, List.filter_nil]
    split
    · exact Or.inl rfl
    · exact Or.inr rfl
  rcases hsegments with hname | hnone
  · rw [hname] at hnames ⊢
    rw [Text.join, List.intercalate_singleton]
    exact hnames path List.mem_cons_self
  · rw [hnone]
    exact Nat.zero_le _

/-- A second slash at the root leads to the same place. It makes the path too long only where the
one name in it is too long by itself. -/
theorem locate_doubled (h : '/' ∉ path) (place : Place) :
    files.locate workingDirectory (tidy ('/' :: '/' :: path)) = .ok place ↔
      files.locate workingDirectory (tidy ('/' :: path)) = .ok place := by
  have hsegments : properSegments ('/' :: '/' :: path) = properSegments ('/' :: path) :=
    properSegments_cons _
  have horigin : origin? workingDirectory ('/' :: '/' :: path) =
      origin? workingDirectory ('/' :: path) := rfl
  obtain ⟨hone, htwo⟩ := leadingSlashes_root path h
  rw [locate_tidy_iff, locate_tidy_iff, hsegments, horigin]
  refine and_congr_left fun ⟨start, _, _, hwalk⟩ => ⟨fun hlong => ?_, fun hshort => ?_⟩
  · have hsame : (properSegments ('/' :: path)).Sublist (properSegments ('/' :: '/' :: path)) :=
      hsegments ▸ List.Sublist.refl _
    have hslashes : (leadingSlashes ('/' :: path)).length ≤
        (leadingSlashes ('/' :: '/' :: path)).length := by
      rw [hone, htwo]
      decide
    exact hlong.mono hsame hslashes
  · rw [properSegments_cons] at hwalk
    have hname := size_join_le_of_walk path h hwalk
    have hlimits : 2 + nameLimit < pathLimit := by decide
    refine ⟨?_, ?_⟩
    · rw [nul_mem_tidy, hsegments, ← nul_mem_tidy]
      exact hshort.noNul
    · rw [size_tidy, hsegments, properSegments_cons, htwo]
      simp only [List.length_cons, List.length_nil]
      omega

theorem isFile_doubled (h : '/' ∉ path) :
    files.isFile workingDirectory ('/' :: '/' :: path) =
      files.isFile workingDirectory ('/' :: path) := by
  rw [Bool.eq_iff_iff, isFile_iff, isFile_iff]
  simp only [find_eq_ok_iff, locate_doubled files workingDirectory path h]

/-- The parts of a path, put together, lead to the file that the path leads to. -/
theorem isFile_parts {path base : List Char} (hbase : Path.baseText? ['/'] path = some base) :
    files.isFile workingDirectory (Path.dirText ['/'] path ++ '/' :: base) =
      files.isFile workingDirectory path := by
  rcases Path.without_or_parted '/' path with h | ⟨before, after, rfl, hafter⟩
  · rw [Path.baseText?_of_not_mem h] at hbase
    obtain rfl := Option.some.inj hbase
    rw [Path.dirText_of_not_mem h]
    exact isFile_current files workingDirectory path h
  · rw [Path.baseText?_append before hafter] at hbase
    split_ifs at hbase with hempty
    obtain rfl := Option.some.inj hbase
    rw [Path.dirText_append before hafter]
    split_ifs with hroot
    · rw [hroot]
      exact isFile_doubled files workingDirectory after hafter
    · rfl

end FileSystem

/-- Splitting a path at its last separator and joining the parts are inverse to each other. Under
the standard policy the parts of any path that has a base lead to the same file. -/
theorem join_dirName_baseName (policy : Path.Policy) (separator : Char)
    (hpolicy : policy.separator = String.singleton separator) :
    (∀ directory name : String, directory ≠ "" → name ≠ "" → separator ∉ name.toList →
      policy.dirName (policy.join directory name) = directory ∧
        policy.baseName? (policy.join directory name) = some name) ∧
      (∀ (path : String) (before after : List Char), path.toList = before ++ separator :: after →
        separator ∉ after → before ≠ [] → after ≠ [] →
          ∃ base, policy.baseName? path = some base ∧
            policy.join (policy.dirName path) base = path) ∧
      ∀ path base : String, Path.Policy.standard.baseName? path = some base → ∀ system : System,
        system.isFile (Path.Policy.standard.join (Path.Policy.standard.dirName path) base) =
          system.isFile path := by
  have hseparator : policy.separator.toList = [separator] := by
    rw [hpolicy, String.toList_singleton]
  refine ⟨?_, ?_, ?_⟩
  · intro directory name hdirectory hne hname
    exact ⟨Path.dirName_join hseparator hdirectory hname, Path.baseName?_join hseparator hne hname⟩
  · intro path before after hpath hafter hbefore hne
    exact Path.join_parts hseparator hpath hafter hbefore hne
  · intro path base hbase system
    obtain ⟨text, htext, rfl⟩ := Option.map_eq_some_iff.1 hbase
    unfold System.isFile
    rw [Path.toList_join, Path.Policy.dirName, String.toList_ofList, String.toList_ofList]
    exact system.files.isFile_parts system.place? htext

/-- Separators at the end of a directory, a doubled separator, a name at the root and a name
alone. -/
theorem join_dirName_baseName_samples :
    Path.Policy.standard.dirName (Path.Policy.standard.join "a//" "b") = "a//" ∧
      Path.Policy.standard.join (Path.Policy.standard.dirName "a//b") "b" = "a//b" ∧
      (∀ system : System, system.isFile "//b" = system.isFile "/b") ∧
      ∀ system : System, system.isFile "./b" = system.isFile "b" := by
  obtain ⟨hjoined, hparts, hfiles⟩ := join_dirName_baseName .standard '/' rfl
  refine ⟨(hjoined "a//" "b" (by decide) (by decide) (by decide)).1, ?_, ?_, ?_⟩
  · obtain ⟨base, hbase, hpath⟩ :=
      hparts "a//b" ['a', '/'] ['b'] rfl (by decide) (by decide) (by decide)
    obtain rfl : "b" = base := Option.some.inj hbase
    exact hpath
  · exact hfiles "/b" "b" rfl
  · exact hfiles "b" "b" rfl

end ModuleLoader
