import ModuleLoader.Proofs.Segments

/-!
# The canonical spelling of a path

In a system without links the canonical spelling of a path leads to what the path leads to.

* `Path.Regular` : a path of which no segment behind the root is empty, but perhaps the last
  (`Regular.of_single`, `Regular.of_doubled`);
* `HasSlashes` : how a canonical spelling begins (`Regular.hasSlashes`);
* `properSegments_canonicalText`, `Regular.head?_canonicalText` : the segments of a canonical
  spelling, and its root;
* `locate_canonicalText` : what a path leads to, its canonical spelling leads to;
* `canonical_sameFile` : the file of a path is the file of its canonical spelling.
-/

namespace ModuleLoader

open ModuleLoader.Path (Segment)

namespace Path
variable {n : Nat} {path : List Char}

/-- The path begins with so many slashes, and behind them no segment but the last is empty: it is
read from these segments kept on. -/
structure Regular (n : Nat) (path : List Char) (kept rest : List Segment) : Prop where
  form : Kept n kept
  inner : ∀ segment ∈ rest.dropLast, segment ≠ []
  segments : Text.split ['/'] path = kept.reverse ++ rest
  collapsed : keptSegments (n != 0) (Text.split ['/'] path) =
    dropTrailing (collapse (n != 0) kept rest)
  slashes : leadingSlashes path = List.replicate n '/'

theorem Regular.rooted {kept rest : List Segment} (h : Regular n path kept rest) :
    path.head? = some '/' ↔ n ≠ 0 := by
  have hlength : (leadingSlashes path).length = n := by rw [h.slashes, List.length_replicate]
  rcases leadingSlashes_cases path with ⟨hhead, hlead⟩ | ⟨hhead, hlead | hlead⟩
  · rw [hlead] at hlength
    simp [hhead, ← hlength]
  · rw [hlead] at hlength
    simp [hhead, ← hlength]
  · rw [hlead] at hlength
    simp [hhead, ← hlength]

/-- Behind its root, a path without doubled slashes has no empty segment but perhaps the last. -/
theorem ne_nil_of_single (hhead : path.head? ≠ some '/') (hsingle : ¬ ['/', '/'] <:+: path) :
    ∀ segment ∈ (Text.split ['/'] path).dropLast, segment ≠ [] := by
  rintro segment hs rfl
  obtain ⟨before, after, hdrop⟩ := List.append_of_mem hs
  have hne := Text.split_ne_nil ['/'] path
  have hsplit := List.dropLast_concat_getLast hne
  have hpath := Text.join_split (List.cons_ne_nil '/' []) path
  have hafter : after ++ [(Text.split ['/'] path).getLast hne] ≠ [] := by simp
  rw [← hsplit, hdrop, List.append_assoc, List.cons_append] at hpath
  generalize after ++ [(Text.split ['/'] path).getLast hne] = others at hpath hafter
  cases before with
  | nil =>
      rw [List.nil_append, Text.join_cons hafter] at hpath
      exact hhead (by rw [← hpath]; rfl)
  | cons first before =>
      rw [Text.join_append ['/'] (List.cons_ne_nil _ _) (List.cons_ne_nil _ _),
        Text.join_cons hafter] at hpath
      refine hsingle ⟨Text.join ['/'] (first :: before), Text.join ['/'] others, ?_⟩
      simpa using hpath

/-- A path without doubled slashes behind a root is regular. -/
theorem Regular.of_rooted (hhead : path.head? ≠ some '/') (hsingle : ¬ ['/', '/'] <:+: path) :
    Regular 1 ('/' :: path) [[]] (Text.split ['/'] path) := by
  have hsplit : Text.split ['/'] ('/' :: path) = [] :: Text.split ['/'] path := by
    rw [Text.split_cons, if_pos rfl]
  refine ⟨.root, ne_nil_of_single hhead hsingle, hsplit, ?_, ?_⟩
  · rw [hsplit]
    rfl
  · cases path with
    | nil => rfl
    | cons c more =>
        have hc : c ≠ '/' := by simpa using hhead
        simp [leadingSlashes, hc]

/-- A path without a root and without doubled slashes is regular. -/
theorem Regular.of_relative (hne : path ≠ []) (hhead : path.head? ≠ some '/')
    (hsingle : ¬ ['/', '/'] <:+: path) : ∃ first rest, Regular 0 path [first] rest := by
  have hinner := ne_nil_of_single hhead hsingle
  obtain ⟨first, rest, hsplit⟩ := List.exists_cons_of_ne_nil (Text.split_ne_nil ['/'] path)
  rw [hsplit] at hinner
  have hfirst : first ≠ [] := by
    rintro rfl
    have hpath := Text.join_split (List.cons_ne_nil '/' []) path
    rw [hsplit] at hpath
    cases rest with
    | nil => exact hne hpath.symm
    | cons next more => exact hinner [] List.mem_cons_self rfl
  refine ⟨first, rest, ?_, fun s hs => hinner s (mem_dropLast_cons hs), hsplit, ?_, ?_⟩
  · by_cases hcurrent : first = current
    · rw [hcurrent]
      exact .here
    · by_cases hparent : first = parent
      · rw [hparent]
        exact .above .nothing
      · exact .entry ⟨hfirst, hcurrent⟩ hparent .nothing
  · rw [hsplit]
    rfl
  · exact ((leadingSlashes_cases path).resolve_right (fun h => hhead h.1)).2

theorem Regular.of_single (hne : path ≠ []) (hsingle : ¬ ['/', '/'] <:+: path) :
    ∃ n kept rest, Regular n path kept rest := by
  by_cases hhead : path.head? = some '/'
  · obtain ⟨behind, rfl⟩ := List.head?_eq_some_iff.1 hhead
    have hbehind : behind.head? ≠ some '/' := by
      intro h
      obtain ⟨more, rfl⟩ := List.head?_eq_some_iff.1 h
      exact hsingle ⟨[], more, rfl⟩
    exact ⟨_, _, _, Regular.of_rooted hbehind
      (fun h => hsingle (h.trans (List.suffix_cons _ _).isInfix))⟩
  · obtain ⟨first, rest, hregular⟩ := Regular.of_relative hne hhead hsingle
    exact ⟨_, _, _, hregular⟩

theorem Regular.of_doubled (hhead : path.head? ≠ some '/') (hne : path ≠ [])
    (hsingle : ¬ ['/', '/'] <:+: path) :
    Regular 2 ('/' :: '/' :: path) [[], []] (Text.split ['/'] path) := by
  have hsplit : Text.split ['/'] ('/' :: '/' :: path) = [] :: [] :: Text.split ['/'] path := by
    rw [Text.split_cons, if_pos rfl, Text.split_cons, if_pos rfl]
  refine ⟨.doubled, ne_nil_of_single hhead hsingle, hsplit, ?_, ?_⟩
  · rw [hsplit, keptSegments, collapse, if_neg (by decide), if_neg (by simp [parent])]
  · obtain ⟨c, more, rfl⟩ := List.exists_cons_of_ne_nil hne
    have hc : c ≠ '/' := by simpa using hhead
    simp [leadingSlashes, hc]

theorem join_eq_nil {pieces : List Segment} :
    Text.join ['/'] pieces = [] ↔ pieces = [] ∨ pieces = [[]] := by
  cases pieces with
  | nil => simp [Text.join]
  | cons piece rest => cases rest <;> simp [Text.join, List.intercalate_cons_cons]

variable (path) in
theorem canonicalText_of_join (rooted : Bool)
    (h : Text.join ['/'] (keptSegments rooted (Text.split ['/'] path)).reverse ≠ []) :
    canonicalText ['/'] rooted path =
      Text.join ['/'] (keptSegments rooted (Text.split ['/'] path)).reverse := by
  simp [canonicalText, h]

theorem canonicalText_of_empty (rooted : Bool) (hne : path ≠ [])
    (h : Text.join ['/'] (keptSegments rooted (Text.split ['/'] path)).reverse = []) :
    canonicalText ['/'] rooted path = if rooted then ['/'] else current := by
  simp [canonicalText, h, hne]

/-- The proper segments of a canonical spelling are those that are kept. -/
theorem properSegments_canonicalText (rooted : Bool) (path : List Char) :
    properSegments (canonicalText ['/'] rooted path) =
      proper (keptSegments rooted (Text.split ['/'] path)).reverse := by
  have hsub := keptSegments_sublist rooted (Text.split ['/'] path)
  by_cases hempty : Text.join ['/'] (keptSegments rooted (Text.split ['/'] path)).reverse = []
  · have hnone : proper (keptSegments rooted (Text.split ['/'] path)).reverse = [] := by
      rcases join_eq_nil.1 hempty with h | h <;> rw [h] <;> decide
    rw [hnone]
    by_cases hpath : path = []
    · subst hpath
      rfl
    · rw [canonicalText_of_empty _ hpath hempty]
      cases rooted <;> decide
  · have hpieces := mt join_eq_nil.2 hempty
    rw [not_or] at hpieces
    rw [canonicalText_of_join _ _ hempty, properSegments_eq, Text.split_join '/' hpieces.1
      (fun s hs => Text.not_mem_of_mem_split '/' (hsub.subset hs))]

theorem leadingSlashes_replicate (k : Nat) {rest : List Char} (h : rest.head? ≠ some '/') :
    (leadingSlashes (List.replicate k '/' ++ rest)).length ≤ k ∧
      ((List.replicate k '/' ++ rest).head? = some '/' ↔ k ≠ 0) := by
  match k with
  | 0 =>
      rcases leadingSlashes_cases rest with ⟨-, hlead⟩ | ⟨hhead, -⟩
      · simp [hlead, h]
      · exact absurd hhead h
  | 1 =>
      cases rest with
      | nil => simp [leadingSlashes]
      | cons c rest =>
          have hc : c ≠ '/' := by simpa using h
          simp [leadingSlashes, hc]
  | 2 =>
      cases rest with
      | nil => simp [leadingSlashes]
      | cons c rest =>
          have hc : c ≠ '/' := by simpa using h
          simp [leadingSlashes, hc]
  | k + 3 => simp [leadingSlashes, List.replicate_succ]

theorem join_replicate (k : Nat) {names : List Segment} (h : names ≠ []) :
    Text.join ['/'] (List.replicate k [] ++ names) =
      List.replicate k '/' ++ Text.join ['/'] names := by
  induction k with
  | zero => rfl
  | succ k ih =>
      rw [List.replicate_succ, List.cons_append, Text.join_cons (by simp [h]), ih]
      rfl

/-- The text begins with a slash if there are to be any, and with no more than that many. -/
def HasSlashes (n : Nat) (text : List Char) : Prop :=
  ∃ k rest, text = List.replicate k '/' ++ rest ∧ rest.head? ≠ some '/' ∧ k ≤ n ∧ (k = 0 ↔ n = 0)

/-- Of a path of which only the root is kept, the canonical spelling is the root. -/
theorem hasSlashes_of_roots (hne : path ≠ []) {k : Nat}
    (hkept : keptSegments (n != 0) (Text.split ['/'] path) = List.replicate k [])
    (hk : k ≤ n ∧ (k = 0 ↔ n = 0)) : HasSlashes n (canonicalText ['/'] (n != 0) path) := by
  have hempty := canonicalText_of_empty (n != 0) hne
  have hjoin := canonicalText_of_join path (n != 0)
  rw [hkept, List.reverse_replicate] at hempty hjoin
  match k, hk with
  | 0, hk =>
      obtain rfl : n = 0 := by omega
      exact ⟨0, current, hempty rfl, by decide, hk⟩
  | 1, hk =>
      have hn : n ≠ 0 := by omega
      refine ⟨1, [], (hempty rfl).trans ?_, by decide, hk⟩
      rw [if_pos (bne_iff_ne.2 hn)]
      rfl
  | k + 2, hk =>
      have htext : Text.join ['/'] (List.replicate (k + 2) ([] : Segment)) =
          List.replicate (k + 1) '/' := by
        rw [List.replicate_succ', join_replicate _ (List.cons_ne_nil _ _)]
        exact List.append_nil _
      refine ⟨k + 1, [], (hjoin ?_).trans ?_, by decide, by omega, by omega⟩
      · exact htext.trans_ne (List.cons_ne_nil _ _)
      · rw [List.append_nil]
        exact htext

theorem hasSlashes_of_names {k : Nat} {names : List Segment} (hnames : names ≠ [])
    (hkept : keptSegments (n != 0) (Text.split ['/'] path) = names ++ List.replicate k [])
    (hpieces : ∀ name ∈ names, name ≠ []) (hk : k ≤ n ∧ (k = 0 ↔ n = 0)) :
    HasSlashes n (canonicalText ['/'] (n != 0) path) := by
  have hsub := keptSegments_sublist (n != 0) (Text.split ['/'] path)
  have hjoin := canonicalText_of_join path (n != 0)
  rw [hkept, List.reverse_append, List.reverse_replicate] at hsub hjoin
  have hreverse : names.reverse ≠ [] := by simpa using hnames
  have hwhole : ∀ segment ∈ names.reverse, segment ≠ [] ∧ '/' ∉ segment := fun s hs =>
    ⟨hpieces s (List.mem_reverse.1 hs),
      Text.not_mem_of_mem_split '/' (hsub.subset (List.mem_append_right _ hs))⟩
  have htext := join_replicate k hreverse
  refine ⟨k, Text.join ['/'] names.reverse, (hjoin ?_).trans htext, head?_join hwhole, hk⟩
  rw [htext, Ne, List.append_eq_nil_iff, not_and, join_eq_nil, not_or]
  refine fun _ => ⟨hreverse, fun hone => ?_⟩
  exact (hwhole [] (hone ▸ List.mem_singleton_self _)).1 rfl

/-- The canonical spelling begins with a slash if the path does, and with no more of them. -/
theorem Regular.hasSlashes {kept rest : List Segment} (h : Regular n path kept rest)
    (hne : path ≠ []) : HasSlashes n (canonicalText ['/'] (n != 0) path) := by
  have hroots := hasRoots_collapse h.form h.inner
  rw [← h.collapsed] at hroots
  rcases hroots with ⟨names, k, hkept, hnames, hk⟩ | ⟨rfl, hkept⟩
  · by_cases hnone : names = []
    · subst hnone
      exact hasSlashes_of_roots hne hkept hk
    · exact hasSlashes_of_names hnone hkept hnames hk
  · have hempty := canonicalText_of_empty ((0 : Nat) != 0) hne
    rw [hkept] at hempty
    exact ⟨0, current, hempty rfl, by decide, by omega, by omega⟩

theorem Regular.head?_canonicalText {kept rest : List Segment} (h : Regular n path kept rest)
    (hne : path ≠ []) :
    (canonicalText ['/'] (n != 0) path).head? = some '/' ↔ path.head? = some '/' := by
  obtain ⟨k, text, htext, hhead, -, hzero⟩ := h.hasSlashes hne
  rw [htext, (leadingSlashes_replicate k hhead).2, h.rooted, Ne, hzero]

theorem Regular.admissible_canonicalText {kept rest : List Segment} (h : Regular n path kept rest)
    (hne : path ≠ []) (hadmissible : Admissible path) :
    Admissible (canonicalText ['/'] (n != 0) path) := by
  obtain ⟨k, text, htext, hhead, hle, -⟩ := h.hasSlashes hne
  refine hadmissible.mono ?_ ?_
  · rw [properSegments_canonicalText, properSegments_eq]
    exact (keptSegments_sublist _ _).filter _
  · rw [h.slashes, List.length_replicate, htext]
    exact Nat.le_trans (leadingSlashes_replicate k hhead).1 hle

end Path

/-- What a path leads to, its canonical spelling leads to. -/
theorem FileSystem.locate_canonicalText {files : FileSystem} {workingDirectory : Option Place}
    {n : Nat} {path : List Char} {kept rest : List Segment}
    (h : Path.Regular n path kept rest) (hne : path ≠ []) {place : Place}
    (hlocate : files.locate workingDirectory (tidy path) = .ok place) :
    files.locate workingDirectory (tidy (Path.canonicalText ['/'] (n != 0) path)) = .ok place := by
  rw [locate_tidy_iff] at hlocate ⊢
  obtain ⟨hadmissible, start, hstart, hdirectory, hwalk⟩ := hlocate
  have horigin := origin?_congr (h.head?_canonicalText hne) workingDirectory
  refine ⟨h.admissible_canonicalText hne hadmissible, start, horigin.trans hstart, hdirectory, ?_⟩
  rw [Path.properSegments_canonicalText, h.collapsed, Path.proper_dropTrailing]
  rw [Path.properSegments_eq, h.segments] at hwalk
  refine walk_collapse h.form (fun hn => ?_) h.inner hwalk
  rw [origin?, if_pos (h.rooted.2 hn)] at hstart
  exact (Option.some.inj hstart).symm

theorem Path.Policy.standard_isRooted (path : String) :
    Policy.standard.isRooted path = (path.toList.head? == some '/') := by
  change isRootedText ['/'] false path.toList = _
  cases path.toList with
  | nil => rfl
  | cons c rest => simp [isRootedText, List.isPrefixOf, BEq.comm (a := c)]

theorem Path.Policy.standard_canonical (path : String) :
    Policy.standard.canonical path =
      .ok (String.ofList (canonicalText ['/'] (path.toList.head? == some '/') path.toList)) := by
  change Except.ok (String.ofList (canonicalText ['/'] (Policy.standard.isRooted path) _)) = _
  rw [standard_isRooted]

theorem Path.Regular.head?_beq {n : Nat} {path : List Char} {kept rest : List Segment}
    (h : Regular n path kept rest) : (path.head? == some '/') = (n != 0) := by
  rw [Bool.eq_iff_iff, beq_iff_eq, bne_iff_ne]
  exact h.rooted

/-- In a system without links, the canonical spelling of a path to a file leads to that file: it
exists, and it has the same text or cannot be read for the same reason. -/
theorem canonical_sameFile (system : System) (path : String)
    (single : ¬ ['/', '/'] <:+: path.toList) (file : system.isFile path) :
    ∃ spelling, Path.Policy.standard.canonical path = .ok spelling ∧ system.isFile spelling ∧
      system.locate spelling = system.locate path ∧
        system.readText spelling = system.readText path := by
  refine ⟨_, Path.Policy.standard_canonical path, ?_⟩
  obtain ⟨place, hplace⟩ := FileSystem.exists_locate_of_isFile file
  refine System.sameFile file rfl ?_
  unfold System.locate
  rw [String.toList_ofList]
  by_cases hne : path.toList = []
  · rw [hne]
    rfl
  · obtain ⟨n, kept, rest, hregular⟩ := Path.Regular.of_single hne single
    rw [hregular.head?_beq, hplace]
    exact FileSystem.locate_canonicalText hregular hne hplace

/-- A system with a script two directories below the working directory. -/
def nested : System :=
  let bare := System.bare (some "/work")
  bare.write "a/b/f" (.file ⟨some (Text.Utf8.encode "Print(1)".toList), .opens none none⟩)

/-- A path that goes up and down again, with a trailing slash, leads to the script. -/
theorem canonical_sameFile_nested : ∃ spelling,
    Path.Policy.standard.canonical "a/b/.././../a/b/f/" = .ok spelling ∧ nested.isFile spelling ∧
      nested.locate spelling = nested.locate "a/b/.././../a/b/f/" ∧
        nested.readText spelling = nested.readText "a/b/.././../a/b/f/" :=
  canonical_sameFile nested "a/b/.././../a/b/f/" (by decide +kernel) (by decide +kernel)

end ModuleLoader
