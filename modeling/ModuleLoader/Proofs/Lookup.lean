import Mathlib.Tactic.Common
import ModuleLoader.System

/-!
# Where a path leads

A path is looked up through its proper segments alone: the spelling counts for no more than whether
the path is rooted and how long it is.

* `size_join_le` : the bytes of segments some of which are left out;
* `walk_append`, `walk_idle`, `walk_proper` : a walk in two parts, and one through segments that
  lead nowhere;
* `origin?`, `behindRoot` : where the lookup of a path begins, and what it goes through
  (`locate_eq`);
* `tidy_cases` : the three forms of a tidied path;
* `Admissible` : the path, once tidied, has no NUL and few enough bytes;
* `locate_tidy_iff` : the place that a path leads to, in terms of its proper segments;
* `System.locate`, `System.isDirectory` : where a path leads to, and whether that is a directory;
* `System.sameFile` : paths that lead to the same place;
* `System.openImage_ne_nul` : the path of a file that exists is not refused.
-/

namespace ModuleLoader

open ModuleLoader.Path (Segment)

namespace Text.Utf8

theorem size_join_le {s t : List (List Char)} (h : s.Sublist t) :
    size (join ['/'] s) ≤ size (join ['/'] t) := by
  induction h with
  | slnil => exact Nat.le_refl _
  | @cons s t piece h ih =>
      refine Nat.le_trans ih ?_
      cases t with
      | nil => exact Nat.zero_le _
      | cons next more =>
          rw [join_cons (List.cons_ne_nil _ _), size_append]
          exact Nat.le_add_left _ _
  | @cons_cons s t piece h ih =>
      cases s with
      | nil =>
          cases t with
          | nil => exact Nat.le_refl _
          | cons next more =>
              rw [join_cons (List.cons_ne_nil _ _), List.append_assoc, size_append, join,
                List.intercalate_singleton]
              exact Nat.le_add_right _ _
      | cons first rest =>
          have ht : t ≠ [] := by
            rintro rfl
            cases h
          rw [join_cons (List.cons_ne_nil _ _), join_cons ht, size_append, size_append (piece ++ _)]
          exact Nat.add_le_add_left ih _

end Text.Utf8

/-! ## Walks -/

/-- The segment names an entry or the directory above. -/
def Path.IsProper (segment : Segment) : Prop := segment ≠ [] ∧ segment ≠ Path.current

instance (segment : Segment) : Decidable (Path.IsProper segment) :=
  inferInstanceAs (Decidable (_ ∧ _))

namespace FileSystem
variable {files : FileSystem} {place stop : Place}

theorem walk_append (segments rest : List Segment) :
    files.walk place (segments ++ rest) =
      (files.walk place segments).bind (fun next => files.walk next rest) := by
  induction segments generalizing place with
  | nil => rfl
  | cons segment segments ih =>
      rw [List.cons_append, walk, walk]
      split
      · rfl
      · rfl
      · split
        · rfl
        · split
          · exact ih
          · split
            · exact ih
            · split
              · rfl
              · exact ih

theorem directory_of_walk {segment : Segment} {rest : List Segment}
    (h : files.walk place (segment :: rest) = .ok stop) :
    files.nodeAt? place = some .directory := by
  rw [walk] at h
  split at h
  · cases h
  · cases h
  · assumption

/-- No walk meets a NUL, for which paths are refused before they are walked. -/
theorem walk_ne_nul (files : FileSystem) (place : Place) (segments : List Segment) :
    files.walk place segments ≠ .error .nulInPath := by
  induction segments generalizing place with
  | nil =>
      rw [walk]
      exact fun h => by cases h
  | cons segment rest ih =>
      rw [walk]
      split
      · exact fun h => by cases h
      · exact fun h => by cases h
      · split_ifs
        · exact fun h => by cases h
        · exact ih _
        · exact ih _
        · exact fun h => by cases h
        · exact ih _

theorem walk_idle (hplace : files.nodeAt? place = some .directory) {segment : Segment}
    (h : ¬ Path.IsProper segment) (rest : List Segment) :
    files.walk place (segment :: rest) = files.walk place rest := by
  have hidle : segment = [] ∨ segment = Path.current := by
    unfold Path.IsProper at h
    tauto
  have hsize : ¬ nameLimit < Text.Utf8.size segment := by
    rcases hidle with rfl | rfl <;> decide
  rw [walk, hplace]
  simp only [hsize, hidle, if_false, if_true]

/-- A walk through segments of which only the last are proper. -/
theorem walk_proper {idle proper : List Segment} (hidle : ∀ segment ∈ idle, ¬ Path.IsProper segment)
    (hne : idle ++ proper ≠ []) :
    files.walk place (idle ++ proper) = .ok stop ↔
      files.nodeAt? place = some .directory ∧ files.walk place proper = .ok stop := by
  induction idle with
  | nil =>
      obtain ⟨segment, rest, rfl⟩ := List.exists_cons_of_ne_nil hne
      exact ⟨fun h => ⟨directory_of_walk h, h⟩, fun h => h.2⟩
  | cons segment idle ih =>
      have hsegment := hidle segment List.mem_cons_self
      by_cases hplace : files.nodeAt? place = some .directory
      · rw [List.cons_append, walk_idle hplace hsegment]
        by_cases hrest : idle ++ proper = []
        · obtain ⟨rfl, rfl⟩ := List.append_eq_nil_iff.1 hrest
          exact ⟨fun h => ⟨hplace, h⟩, fun h => h.2⟩
        · exact ih (fun s hs => hidle s (List.mem_cons_of_mem _ hs)) hrest
      · refine ⟨fun h => absurd (directory_of_walk h) hplace, fun h => absurd h.1 hplace⟩

end FileSystem

/-! ## Lookups -/

/-- Where the lookup of a path begins: at the root, or in the working directory. -/
def origin? (workingDirectory : Option Place) (path : List Char) : Option Place :=
  if path.head? = some '/' then some [] else workingDirectory

theorem origin?_congr {path other : List Char} (h : other.head? = some '/' ↔ path.head? = some '/')
    (workingDirectory : Option Place) :
    origin? workingDirectory other = origin? workingDirectory path := by
  simp only [origin?, h]

def behindRoot (path : List Char) : List Char :=
  if path.head? = some '/' then path.tail else path

namespace FileSystem
variable (files : FileSystem) (workingDirectory : Option Place)

/-- A path is walked from its origin. -/
theorem locate_eq (path : List Char) :
    files.locate workingDirectory path =
      if '\x00' ∈ path then .error .nulInPath
      else if pathLimit ≤ Text.Utf8.size path then .error .nameTooLong
      else match origin? workingDirectory path with
        | some start => files.walk start (Text.split ['/'] (behindRoot path))
        | none => .error .noSuchEntry := by
  unfold locate origin? behindRoot
  simp only [List.contains_iff_mem]
  congr 2
  cases path with
  | nil => cases workingDirectory <;> rfl
  | cons c rest =>
      by_cases hc : c = '/'
      · subst hc
        rfl
      · cases workingDirectory with
        | none => simp [hc]
        | some place => simp [hc]

end FileSystem

/-! ## Tidy paths -/

theorem mem_properSegments {path : List Char} {segment : Segment}
    (h : segment ∈ properSegments path) : Path.IsProper segment ∧ '/' ∉ segment := by
  unfold properSegments at h
  obtain ⟨hmem, hproper⟩ := List.mem_filter.1 h
  simp only [Bool.and_eq_true, bne_iff_ne, ne_eq] at hproper
  exact ⟨hproper, Text.not_mem_of_mem_split '/' hmem⟩

theorem properSegments_cons (path : List Char) :
    properSegments ('/' :: path) = properSegments path := by
  unfold properSegments
  rw [Text.split_cons, if_pos rfl, List.filter_cons_of_neg (by simp)]

theorem leadingSlashes_cases (path : List Char) :
    path.head? ≠ some '/' ∧ leadingSlashes path = [] ∨
      path.head? = some '/' ∧ (leadingSlashes path = ['/'] ∨ leadingSlashes path = ['/', '/']) := by
  unfold leadingSlashes
  split
  · exact Or.inr ⟨rfl, Or.inl rfl⟩
  · exact Or.inr ⟨rfl, Or.inr rfl⟩
  · exact Or.inr ⟨rfl, Or.inl rfl⟩
  · rename_i h
    refine Or.inl ⟨fun hhead => ?_, rfl⟩
    obtain ⟨rest, rfl⟩ := List.head?_eq_some_iff.1 hhead
    exact h rest rfl

theorem head?_join {pieces : List Segment} (h : ∀ segment ∈ pieces, segment ≠ [] ∧ '/' ∉ segment) :
    (Text.join ['/'] pieces).head? ≠ some '/' := by
  cases pieces with
  | nil => simp [Text.join]
  | cons segment rest =>
      obtain ⟨hne, hslash⟩ := h segment List.mem_cons_self
      obtain ⟨c, more, rfl⟩ := List.exists_cons_of_ne_nil hne
      have hc : c ≠ '/' := fun hc => hslash (hc ▸ List.mem_cons_self)
      cases rest with
      | nil => simpa [Text.join] using hc
      | cons next more => simpa [Text.join, List.intercalate_cons_cons] using hc

theorem head?_join_properSegments (path : List Char) :
    (Text.join ['/'] (properSegments path)).head? ≠ some '/' :=
  head?_join (fun _ h => ⟨(mem_properSegments h).1.1, (mem_properSegments h).2⟩)

/-- The proper segments come back from the text that they make, which else is one empty piece. -/
theorem split_join_properSegments (path : List Char) :
    ∃ idle, (∀ segment ∈ idle, ¬ Path.IsProper segment) ∧ idle ++ properSegments path ≠ [] ∧
      Text.split ['/'] (Text.join ['/'] (properSegments path)) = idle ++ properSegments path := by
  by_cases h : properSegments path = []
  · refine ⟨[[]], by simp [Path.IsProper], by simp, ?_⟩
    rw [h]
    rfl
  · refine ⟨[], by simp, h, ?_⟩
    exact Text.split_join '/' h (fun segment hs => (mem_properSegments hs).2)

theorem join_properSegments_eq_nil (path : List Char) :
    Text.join ['/'] (properSegments path) = [] ↔ properSegments path = [] := by
  refine ⟨fun h => ?_, fun h => by rw [h]; rfl⟩
  by_contra hsome
  have hsplit := Text.split_join '/' hsome (fun segment hs => (mem_properSegments hs).2)
  rw [h, Text.split_nil] at hsplit
  have hmem : [] ∈ properSegments path := hsplit ▸ List.mem_singleton_self _
  exact (mem_properSegments hmem).1.1 rfl

/-- The three forms of a tidied path. -/
theorem tidy_cases (path : List Char) :
    path.head? ≠ some '/' ∧ properSegments path = [] ∧ tidy path = Path.current ∨
      path.head? ≠ some '/' ∧ properSegments path ≠ [] ∧
        tidy path = Text.join ['/'] (properSegments path) ∨
      path.head? = some '/' ∧ (tidy path = '/' :: Text.join ['/'] (properSegments path) ∨
        tidy path = '/' :: '/' :: Text.join ['/'] (properSegments path)) := by
  rcases leadingSlashes_cases path with ⟨hhead, hlead⟩ | ⟨hhead, hlead | hlead⟩
  · by_cases hempty : properSegments path = []
    · exact Or.inl ⟨hhead, hempty, by simp [tidy, hlead, hempty, Text.join]⟩
    · refine Or.inr (Or.inl ⟨hhead, hempty, ?_⟩)
      simp [tidy, hlead, join_properSegments_eq_nil, hempty]
  · exact Or.inr (Or.inr ⟨hhead, Or.inl (by simp [tidy, hlead])⟩)
  · exact Or.inr (Or.inr ⟨hhead, Or.inr (by simp [tidy, hlead])⟩)

theorem head?_tidy (path : List Char) :
    (tidy path).head? = some '/' ↔ path.head? = some '/' := by
  rcases tidy_cases path with ⟨hhead, -, htidy⟩ | ⟨hhead, -, htidy⟩ | ⟨hhead, htidy | htidy⟩
  · simp [htidy, hhead, Path.current]
  · simp [htidy, hhead, head?_join_properSegments]
  · simp [htidy, hhead]
  · simp [htidy, hhead]

theorem split_behindRoot_tidy (path : List Char) :
    ∃ idle, (∀ segment ∈ idle, ¬ Path.IsProper segment) ∧ idle ++ properSegments path ≠ [] ∧
      Text.split ['/'] (behindRoot (tidy path)) = idle ++ properSegments path := by
  obtain ⟨idle, hidle, hne, hsplit⟩ := split_join_properSegments path
  rcases tidy_cases path with ⟨-, hnone, htidy⟩ | ⟨-, -, htidy⟩ | ⟨-, htidy | htidy⟩
  · rw [htidy, hnone]
    exact ⟨[Path.current], by simp [Path.IsProper], by simp, by decide⟩
  · rw [htidy, behindRoot, if_neg (head?_join_properSegments path)]
    exact ⟨idle, hidle, hne, hsplit⟩
  · rw [htidy]
    exact ⟨idle, hidle, hne, hsplit⟩
  · rw [htidy]
    refine ⟨[] :: idle, ?_, List.cons_ne_nil _ _, ?_⟩
    · intro segment hs
      rcases List.mem_cons.1 hs with rfl | hs
      · simp [Path.IsProper]
      · exact hidle segment hs
    · rw [behindRoot, List.head?_cons, if_pos rfl, List.tail_cons, Text.split_cons, if_pos rfl,
        hsplit, List.cons_append]

/-- The path, once tidied, is one that the system takes. -/
structure Admissible (path : List Char) : Prop where
  noNul : '\x00' ∉ tidy path
  short : Text.Utf8.size (tidy path) < FileSystem.pathLimit

theorem nul_mem_tidy (path : List Char) :
    '\x00' ∈ tidy path ↔ ∃ segment ∈ properSegments path, '\x00' ∈ segment := by
  have hjoin : '\x00' ∈ Text.join ['/'] (properSegments path) ↔
      ∃ segment ∈ properSegments path, '\x00' ∈ segment := by
    refine ⟨fun h => ?_, fun ⟨segment, hs, h⟩ => Text.mem_join_of_mem hs h⟩
    exact (Text.mem_join h).resolve_left (by decide)
  rcases tidy_cases path with ⟨-, hnone, htidy⟩ | ⟨-, -, htidy⟩ | ⟨-, htidy | htidy⟩
  · rw [htidy, hnone]
    simp [Path.current]
  · rw [htidy, hjoin]
  · rw [htidy, List.mem_cons, hjoin]
    simp
  · rw [htidy, List.mem_cons, List.mem_cons, hjoin]
    simp

theorem nul_mem_tidy_of_mem {path : List Char} (h : '\x00' ∈ path) : '\x00' ∈ tidy path := by
  rw [← Text.join_split (List.cons_ne_nil '/' []) path] at h
  obtain ⟨segment, hs, hnul⟩ := (Text.mem_join h).resolve_left (by decide)
  refine (nul_mem_tidy path).2 ⟨segment, List.mem_filter.2 ⟨hs, ?_⟩, hnul⟩
  rw [Bool.and_eq_true, bne_iff_ne, bne_iff_ne]
  constructor
  · rintro rfl
    exact absurd hnul List.not_mem_nil
  · rintro rfl
    exact absurd hnul (by decide)

theorem size_leadingSlashes (path : List Char) :
    Text.Utf8.size (leadingSlashes path) = (leadingSlashes path).length := by
  rcases leadingSlashes_cases path with ⟨-, h⟩ | ⟨-, h | h⟩ <;> rw [h] <;> decide

/-- The bytes of a tidied path: those of its root and those of its proper segments. -/
theorem size_tidy (path : List Char) : Text.Utf8.size (tidy path) =
    max 1 ((leadingSlashes path).length +
      Text.Utf8.size (Text.join ['/'] (properSegments path))) := by
  rw [← size_leadingSlashes, ← Text.Utf8.size_append]
  unfold tidy
  by_cases hempty : leadingSlashes path ++ Text.join ['/'] (properSegments path) = []
  · simp only [hempty, List.isEmpty_nil, if_true]
    decide
  · have hpos := Text.Utf8.size_pos hempty
    simp only [List.isEmpty_iff, hempty, if_false]
    omega

/-- A path is its root and what has its proper segments. -/
theorem exists_behind (path : List Char) : ∃ rest, path = leadingSlashes path ++ rest ∧
    properSegments path = properSegments rest := by
  unfold leadingSlashes
  split
  · exact ⟨_, rfl, properSegments_cons _⟩
  · exact ⟨_, rfl, (properSegments_cons _).trans (properSegments_cons _)⟩
  · exact ⟨_, rfl, properSegments_cons _⟩
  · exact ⟨_, rfl, rfl⟩

theorem size_tidy_le {path : List Char} (hne : path ≠ []) :
    Text.Utf8.size (tidy path) ≤ Text.Utf8.size path := by
  obtain ⟨rest, hpath, hsegments⟩ := exists_behind path
  have hpos := Text.Utf8.size_pos hne
  have hkept : (properSegments rest).Sublist (Text.split ['/'] rest) := List.filter_sublist
  have hjoin := Text.Utf8.size_join_le hkept
  rw [Text.join_split (List.cons_ne_nil _ _)] at hjoin
  have hsize : Text.Utf8.size path = (leadingSlashes path).length + Text.Utf8.size rest := by
    rw [← size_leadingSlashes, ← Text.Utf8.size_append, ← hpath]
  rw [size_tidy, hsegments]
  omega

theorem Admissible.mono {path other : List Char} (h : Admissible path)
    (hsegments : (properSegments other).Sublist (properSegments path))
    (hslashes : (leadingSlashes other).length ≤ (leadingSlashes path).length) :
    Admissible other := by
  refine ⟨fun hnul => h.noNul ?_, ?_⟩
  · rw [nul_mem_tidy] at hnul ⊢
    obtain ⟨segment, hs, hnul⟩ := hnul
    exact ⟨segment, hsegments.subset hs, hnul⟩
  · have hshort := h.short
    have hjoin := Text.Utf8.size_join_le hsegments
    rw [size_tidy] at hshort ⊢
    omega

namespace FileSystem

/-- What a tidied path leads to is found by its proper segments alone. -/
theorem locate_tidy_iff {files : FileSystem} {workingDirectory : Option Place} {path : List Char}
    {place : Place} :
    files.locate workingDirectory (tidy path) = .ok place ↔
      Admissible path ∧ ∃ start, origin? workingDirectory path = some start ∧
        files.nodeAt? start = some .directory ∧
          files.walk start (properSegments path) = .ok place := by
  obtain ⟨idle, hidle, hne, hsplit⟩ := split_behindRoot_tidy path
  have horigin := origin?_congr (head?_tidy path) workingDirectory
  rw [locate_eq, hsplit, horigin]
  by_cases hnul : '\x00' ∈ tidy path
  · rw [if_pos hnul]
    exact ⟨fun h => (by cases h), fun h => absurd hnul h.1.noNul⟩
  · by_cases hsize : pathLimit ≤ Text.Utf8.size (tidy path)
    · rw [if_neg hnul, if_pos hsize]
      exact ⟨fun h => (by cases h), fun h => absurd h.1.short (Nat.not_lt.2 hsize)⟩
    · rw [if_neg hnul, if_neg hsize]
      have hadmissible : Admissible path := ⟨hnul, Nat.lt_of_not_le hsize⟩
      cases origin? workingDirectory path with
      | none => exact ⟨fun h => (by cases h), fun ⟨_, _, h, _⟩ => (by cases h)⟩
      | some start =>
          refine (walk_proper hidle hne).trans ⟨fun h => ⟨hadmissible, start, rfl, h⟩, ?_⟩
          rintro ⟨-, start', hstart, h⟩
          obtain rfl := Option.some.inj hstart
          exact h

theorem find_eq_ok_iff {files : FileSystem} {workingDirectory : Option Place} {path : List Char}
    {node : Node} :
    files.find workingDirectory path = .ok node ↔
      ∃ place, files.locate workingDirectory path = .ok place ∧
        files.nodeAt? place = some node := by
  unfold find
  cases files.locate workingDirectory path with
  | error obstacle => exact ⟨fun h => (by cases h), fun ⟨_, h, _⟩ => (by cases h)⟩
  | ok place =>
      cases hnode : files.nodeAt? place with
      | none =>
          refine ⟨fun h => ?_, fun ⟨_, h, hother⟩ => ?_⟩
          · simp [bind, Except.bind, hnode] at h
          · cases h
            rw [hnode] at hother
            cases hother
      | some other => simp [bind, Except.bind, hnode]

theorem exists_locate_of_isFile {files : FileSystem} {workingDirectory : Option Place}
    {path : List Char} (h : files.isFile workingDirectory path) :
    ∃ place, files.locate workingDirectory (tidy path) = .ok place := by
  unfold isFile at h
  split at h
  · rename_i file hfind
    obtain ⟨place, hplace, -⟩ := find_eq_ok_iff.1 hfind
    exact ⟨place, hplace⟩
  · cases h

end FileSystem

/-- Where a path leads to when it is probed or read. -/
def System.locate (system : System) (path : String) : Except Obstacle Place :=
  system.files.locate system.place? (tidy path.toList)

def System.isDirectory (system : System) (path : String) : Prop :=
  system.files.find system.place? (tidy path.toList) = .ok .directory

instance (system : System) (path : String) : Decidable (system.isDirectory path) :=
  inferInstanceAs (Decidable (_ = _))

theorem FileSystem.openImage_eq (files : FileSystem) (workingDirectory : Option Place)
    (path : List Char) :
    files.openImage workingDirectory path =
      match files.locate workingDirectory path with
      | .error obstacle => .error obstacle
      | .ok place =>
        match files.nodeAt? place with
        | none => .error .noSuchEntry
        | some .directory => .error .isADirectory
        | some (.file file) => .ok file.image := by
  unfold openImage find
  cases files.locate workingDirectory path with
  | error obstacle => rfl
  | ok place =>
      cases hnode : files.nodeAt? place with
      | none => simp [bind, Except.bind, hnode]
      | some node => cases node <;> simp [bind, Except.bind, hnode]

/-- The path of a file that exists holds no NUL, so that opening it cannot fail for one. -/
theorem System.openImage_ne_nul {system : System} {path : String} (h : system.isFile path) :
    system.openImage path ≠ .error .nulInPath := by
  have hnul : '\x00' ∉ path.toList := by
    obtain ⟨place, hplace⟩ := FileSystem.exists_locate_of_isFile h
    have hadmissible := (FileSystem.locate_tidy_iff.1 hplace).1
    exact fun hmem => hadmissible.noNul (nul_mem_tidy_of_mem hmem)
  unfold System.openImage
  rw [FileSystem.openImage_eq, FileSystem.locate_eq, if_neg hnul]
  split_ifs
  · exact fun h => by cases h
  · cases origin? system.place? path.toList with
    | none => exact fun h => by cases h
    | some start =>
        dsimp only
        split
        · rename_i obstacle hwalk
          rintro ⟨⟩
          exact system.files.walk_ne_nul _ _ hwalk
        · split <;> exact fun h => by cases h

/-- A path that leads to the place of a file leads to that file, with the same text or the same
obstacle. -/
theorem System.sameFile {system later : System} {path other : String} (file : system.isFile path)
    (hfiles : later.files = system.files) (h : later.locate other = system.locate path) :
    later.isFile other ∧ later.locate other = system.locate path ∧
      later.readText other = system.readText path := by
  have hfind : later.files.find later.place? (tidy other.toList) =
      system.files.find system.place? (tidy path.toList) := by
    unfold System.locate at h
    unfold FileSystem.find
    rw [h, hfiles]
  unfold System.isFile FileSystem.isFile at file ⊢
  unfold System.readText FileSystem.readText
  rw [hfind]
  exact ⟨file, h, rfl⟩

end ModuleLoader
