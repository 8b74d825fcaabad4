import ModuleLoader.Proofs.Lookup

/-!
# The segments that are kept of a path

The canonical spelling of a path drops segments that lead nowhere and takes back the names that a
`..` takes back. What carries over from one segment to the next is that whatever the segments kept
and those still to be read lead to is not changed by reading one.

* `Path.proper` : the segments that name an entry or the directory above;
* `Kept` : the segments kept of a path without doubled separators, but for a doubled root;
* `HasRoots`, `hasRoots_collapse` : where the empty ones among them are;
* `collapse_sublist`, `keptSegments_sublist` : segments are only left out;
* `walk_ascend`, `walk_collapse` : what one `..` and what all segments do to a walk.
-/

namespace ModuleLoader

open ModuleLoader.Path (Segment)

namespace Path

/-! ## Proper segments -/

def proper (segments : List Segment) : List Segment :=
  segments.filter (fun s => decide (IsProper s))

theorem properSegments_eq (path : List Char) :
    properSegments path = proper (Text.split ['/'] path) := by
  unfold properSegments proper
  refine List.filter_congr (fun segment _ => ?_)
  rw [Bool.eq_iff_iff, Bool.and_eq_true, bne_iff_ne, bne_iff_ne, decide_eq_true_iff]
  rfl

theorem proper_append (s t : List Segment) : proper (s ++ t) = proper s ++ proper t :=
  List.filter_append _ _

theorem proper_cons_idle {segment : Segment} (h : ¬ IsProper segment) (segments : List Segment) :
    proper (segment :: segments) = proper segments :=
  List.filter_cons_of_neg (by simpa using h)

theorem proper_singleton {segment : Segment} (h : IsProper segment) :
    proper [segment] = [segment] :=
  List.filter_cons_of_pos (by simpa using h)

theorem proper_parent : IsProper parent := by decide

/-! ## The segments kept -/

/-- The segments that are kept, last first. On top of at most so many empty ones, which are the
root, there are names; without a root the path may begin with `.` and have `..` anywhere. -/
inductive Kept : (roots : Nat) → List Segment → Prop
  | root {n : Nat} : Kept (n + 1) [[]]
  | doubled {n : Nat} : Kept (n + 2) [[], []]
  | nothing : Kept 0 []
  | here : Kept 0 [current]
  | above {kept : List Segment} (below : Kept 0 kept) : Kept 0 (parent :: kept)
  | entry {n : Nat} {kept : List Segment} {segment : Segment} (proper : IsProper segment)
      (name : segment ≠ parent) (below : Kept n kept) : Kept n (segment :: kept)

/-- Of the segments kept, last first, at most so many are empty, all of them at the bottom. -/
def HasRoots (n : Nat) (kept : List Segment) : Prop :=
  ∃ names k, kept = names ++ List.replicate k [] ∧ (∀ segment ∈ names, segment ≠ []) ∧
    k ≤ n ∧ (k = 0 ↔ n = 0)

theorem HasRoots.cons {n : Nat} {kept : List Segment} (h : HasRoots n kept) {segment : Segment}
    (hne : segment ≠ []) : HasRoots n (segment :: kept) := by
  obtain ⟨names, k, rfl, hnames, hk⟩ := h
  refine ⟨segment :: names, k, rfl, fun s hs => ?_, hk⟩
  rcases List.mem_cons.1 hs with rfl | hs
  · exact hne
  · exact hnames s hs

theorem HasRoots.dropTrailing {n : Nat} {kept : List Segment} (h : HasRoots n kept) :
    HasRoots n (dropTrailing kept) := by
  obtain ⟨names, k, rfl, hnames, hk⟩ := h
  cases names with
  | nil =>
      match k, hk with
      | 0, hk => exact ⟨[], 0, rfl, by simp, hk⟩
      | 1, hk => exact ⟨[], 1, rfl, by simp, hk⟩
      | k + 2, hk => exact ⟨[], k + 1, rfl, by simp, by omega, by omega⟩
  | cons name names =>
      obtain ⟨c, more, rfl⟩ := List.exists_cons_of_ne_nil (hnames name List.mem_cons_self)
      exact ⟨_, k, rfl, hnames, hk⟩

namespace Kept
variable {n : Nat} {kept : List Segment}

theorem hasRoots (h : Kept n kept) : HasRoots n kept := by
  induction h with
  | root => exact ⟨[], 1, rfl, by simp, by omega, by omega⟩
  | doubled => exact ⟨[], 2, rfl, by simp, by omega, by omega⟩
  | nothing => exact ⟨[], 0, rfl, by simp, by omega, by omega⟩
  | here => exact ⟨[current], 0, rfl, by simp [current], by omega, by omega⟩
  | above below ih => exact ih.cons proper_parent.1
  | entry proper name below ih => exact ih.cons proper.1

/-- A `..` takes back the name before it. -/
theorem ascend_entry (h : Kept n kept) {segment : Segment} (proper : IsProper segment)
    (name : segment ≠ parent) : Path.ascend (n != 0) (segment :: kept) = kept := by
  cases kept with
  | nil => cases h with
    | nothing => simp [Path.ascend, name, proper.2]
  | cons last below => simp [Path.ascend, name]

theorem ascend_above (kept : List Segment) :
    Path.ascend false (parent :: kept) = parent :: parent :: kept := by
  cases kept <;> rfl

/-- The segments kept after a `..` are of the same form. -/
protected theorem ascend (h : Kept n kept) : Kept n (Path.ascend (n != 0) kept) := by
  cases h with
  | root => exact .root
  | doubled => exact .root
  | nothing => exact .above .nothing
  | here => exact .above .here
  | above below =>
      rw [bne_self_eq_false, ascend_above]
      exact .above (.above below)
  | entry proper name below =>
      rw [below.ascend_entry proper name]
      exact below

end Kept

theorem mem_dropLast_cons {segment s : Segment} {rest : List Segment} (h : s ∈ rest.dropLast) :
    s ∈ (segment :: rest).dropLast := by
  cases rest with
  | nil => cases h
  | cons next more => exact List.mem_cons_of_mem _ h

/-- What is kept of a whole path has its empty segments at the bottom, unless nothing else is left
of a path without a root. -/
theorem hasRoots_collapse {n : Nat} {kept rest : List Segment} (hkept : Kept n kept)
    (hrest : ∀ segment ∈ rest.dropLast, segment ≠ []) :
    HasRoots n (dropTrailing (collapse (n != 0) kept rest)) ∨
      n = 0 ∧ dropTrailing (collapse (n != 0) kept rest) = [[]] := by
  induction rest generalizing kept with
  | nil => exact Or.inl hkept.hasRoots.dropTrailing
  | cons segment rest ih =>
      have htail : ∀ s ∈ rest.dropLast, s ≠ [] := fun s hs => hrest s (mem_dropLast_cons hs)
      rw [collapse]
      split
      · exact ih hkept htail
      · rename_i hcurrent
        split
        · exact ih hkept.ascend htail
        · rename_i hparent
          cases rest with
          | cons next more =>
              have hne : segment ≠ [] := hrest segment List.mem_cons_self
              have hname : segment ≠ parent := fun h => hparent ⟨h, List.cons_ne_nil _ _⟩
              exact ih (.entry ⟨hne, hcurrent⟩ hname hkept) htail
          | nil =>
              by_cases hne : segment = []
              · subst hne
                cases kept with
                | nil => cases hkept with
                  | nothing => exact Or.inr ⟨rfl, rfl⟩
                | cons last below => exact Or.inl hkept.hasRoots
              · exact Or.inl (hkept.hasRoots.cons hne).dropTrailing

theorem ascend_sublist (rooted : Bool) (kept : List Segment) :
    (ascend rooted kept).Sublist (parent :: kept) := by
  unfold ascend
  split
  · exact List.Sublist.refl _
  · split
    · exact List.sublist_cons_self _ _
    · split
      · exact List.Sublist.refl _
      · exact List.nil_sublist _
  · split
    · exact List.Sublist.refl _
    · exact (List.sublist_cons_self _ _).trans (List.sublist_cons_self _ _)

theorem collapse_sublist (rooted : Bool) (kept rest : List Segment) :
    (collapse rooted kept rest).reverse.Sublist (kept.reverse ++ rest) := by
  induction rest generalizing kept with
  | nil => simp [collapse]
  | cons segment rest ih =>
      rw [collapse]
      split
      · exact (ih kept).trans ((List.sublist_cons_self _ _).append_left _)
      · split
        · rename_i hparent
          have hascend := (ascend_sublist rooted kept).reverse.append_right rest
          rw [hparent.1]
          simpa using (ih _).trans hascend
        · simpa using ih (segment :: kept)

theorem dropTrailing_sublist (kept : List Segment) : (dropTrailing kept).Sublist kept := by
  unfold dropTrailing
  split
  · split
    · simp
    · exact List.sublist_cons_self _ _
  · exact List.Sublist.refl _

theorem keptSegments_sublist (rooted : Bool) (segments : List Segment) :
    (keptSegments rooted segments).reverse.Sublist segments := by
  cases segments with
  | nil => exact List.Sublist.refl _
  | cons first rest =>
      exact (dropTrailing_sublist _).reverse.trans (collapse_sublist rooted [first] rest)

theorem proper_dropTrailing (kept : List Segment) :
    proper (dropTrailing kept).reverse = proper kept.reverse := by
  unfold dropTrailing
  split
  · rename_i kept
    split
    · rename_i hempty
      rw [List.isEmpty_iff.1 hempty]
    · rw [List.reverse_cons, proper_append, proper_cons_idle (by simp [IsProper])]
      simp [proper]
  · rfl

end Path

/-! ## Walks through the segments kept -/

namespace FileSystem
open ModuleLoader.Path (Kept IsProper proper parent proper_append proper_cons_idle proper_singleton)

variable {files : FileSystem} {start place stop : Place}

theorem walk_parent (hplace : files.nodeAt? place = some .directory) (rest : List Segment) :
    files.walk place (parent :: rest) = files.walk place.dropLast rest := by
  have hsize : ¬ nameLimit < Text.Utf8.size parent := by decide
  have hidle : ¬ (parent = [] ∨ parent = Path.current) := by decide
  rw [walk, hplace]
  dsimp only
  rw [if_neg hsize, if_neg hidle, if_pos rfl]

/-- What lies behind a name and a `..` is reached without them. -/
theorem walk_entry_parent {segment : Segment} (hproper : IsProper segment)
    (hname : segment ≠ parent) {rest : List Segment}
    (h : files.walk place (segment :: parent :: rest) = .ok stop) :
    files.walk place rest = .ok stop := by
  have hidle : ¬ (segment = [] ∨ segment = Path.current) := by
    rw [not_or]
    exact hproper
  rw [walk, directory_of_walk h] at h
  simp only [hidle, hname, if_false] at h
  split at h
  · cases h
  · split at h
    · cases h
    · rw [walk_parent (directory_of_walk h), List.dropLast_concat] at h
      exact h

/-- What lies behind the segments kept and a `..` lies behind the segments kept after it. -/
theorem walk_ascend {n : Nat} {kept : List Segment} (hkept : Kept n kept)
    (hstart : n ≠ 0 → start = []) {rest : List Segment}
    (h : files.walk start (proper kept.reverse ++ parent :: rest) = .ok stop) :
    files.walk start (proper (Path.ascend (n != 0) kept).reverse ++ rest) = .ok stop := by
  -- The root is its own parent, so that a `..` there may be dropped.
  have hroot (h : files.walk [] (parent :: rest) = .ok stop) : files.walk [] rest = .ok stop := by
    rwa [walk_parent (directory_of_walk h)] at h
  cases hkept with
  | root =>
      obtain rfl := hstart (Nat.succ_ne_zero _)
      exact hroot h
  | doubled =>
      obtain rfl := hstart (Nat.succ_ne_zero _)
      exact hroot h
  | nothing => exact h
  | here => exact h
  | above below =>
      rw [bne_self_eq_false, Kept.ascend_above, List.reverse_cons, proper_append,
        proper_singleton Path.proper_parent, List.append_assoc]
      exact h
  | entry hproper hname below =>
      rw [below.ascend_entry hproper hname]
      rw [List.reverse_cons, proper_append, proper_singleton hproper, List.append_assoc,
        walk_append] at h
      rw [walk_append]
      cases hbelow : files.walk start (proper _) with
      | error obstacle =>
          rw [hbelow] at h
          cases h
      | ok next =>
          rw [hbelow] at h
          exact walk_entry_parent hproper hname h

/-- What a path leads to, the segments kept of it lead to. -/
theorem walk_collapse {n : Nat} {kept : List Segment} (hkept : Kept n kept)
    (hstart : n ≠ 0 → start = []) {rest : List Segment}
    (hrest : ∀ segment ∈ rest.dropLast, segment ≠ [])
    (h : files.walk start (proper (kept.reverse ++ rest)) = .ok stop) :
    files.walk start (proper (Path.collapse (n != 0) kept rest).reverse) = .ok stop := by
  -- Each turn moves a segment from `rest` to `kept`, and what both lead to stays the same.
  induction rest generalizing kept with
  | nil => rwa [List.append_nil] at h
  | cons segment rest ih =>
      have htail : ∀ s ∈ rest.dropLast, s ≠ [] := fun s hs =>
        hrest s (Path.mem_dropLast_cons hs)
      rw [Path.collapse]
      split
      · rename_i hcurrent
        subst hcurrent
        refine ih hkept htail ?_
        rwa [proper_append, proper_cons_idle (by simp [IsProper]), ← proper_append] at h
      · rename_i hcurrent
        split
        · rename_i hparent
          obtain ⟨rfl, -⟩ := hparent
          refine ih hkept.ascend htail ?_
          rw [proper_append]
          refine walk_ascend hkept hstart ?_
          rwa [proper_append, ← List.singleton_append, proper_append,
            proper_singleton Path.proper_parent] at h
        · rename_i hparent
          rw [← List.singleton_append, ← List.append_assoc, ← List.reverse_cons] at h
          -- The last segment may be empty or a `..` that is kept; nothing is collapsed behind it.
          cases rest with
          | nil => rwa [List.append_nil] at h
          | cons next more =>
              have hne : segment ≠ [] := hrest segment List.mem_cons_self
              refine ih (.entry ⟨hne, hcurrent⟩ (fun hp => hparent ⟨hp, ?_⟩) hkept) htail h
              exact List.cons_ne_nil _ _

end FileSystem

end ModuleLoader
