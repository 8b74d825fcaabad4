import ModuleLoader.Proofs.Rooting

/-!
# One pass over a rooted path

The canonical spelling of a rooted path is also what a single pass over its characters writes. At
a separator the pass looks ahead: it skips `/.`, and at `/../` it takes back what it wrote from the
last separator on. No segment is ever cut out of the path.

* `rewind`, `sweep`, `swept` : the pass;
* `sweep_current`, `sweep_parent`, `sweep_segment` : what the pass does at one segment;
* `rewind_join` : taking back a text is taking back a segment;
* `sweep_slashed`, `withoutSlash_join` : the pass against the segments kept;
* `canonical_swept` : the spelling of a rooted path is what the pass writes.
-/

namespace ModuleLoader

namespace Path

/-! ## The pass -/

/-- What was written, without everything from the last separator on. -/
def rewind (written : List Char) : List Char :=
  match Text.lastIndex? ['/'] written with
  | some index => written.take index
  | none => written

/-- What is written after the rest of the path was read, of which so many characters are skipped. -/
def sweep (written : List Char) : (skip : Nat) → List Char → List Char
  | _, [] => written
  | skip + 1, _ :: rest => sweep written skip rest
  | 0, c :: rest =>
    if c = '/' ∧ (rest = ['.'] ∨ ['.', '/'] <+: rest) then sweep written 1 rest
    else if c = '/' ∧ ['.', '.', '/'] <+: rest then sweep (rewind written) 2 rest
    else sweep (written ++ [c]) 0 rest

def withoutSlash (text : List Char) : List Char :=
  if text.getLast? = some '/' then text.dropLast else text

def swept (path : List Char) : List Char :=
  let text := withoutSlash (sweep [] 0 path)
  if text.isEmpty then ['/'] else text

/-! ## One segment -/

def slashed (segments : List Segment) : List Char := segments.flatMap ('/' :: ·)

variable {written : List Char} {s : Segment} {segments kept : List Segment}

theorem slashed_cons (s : Segment) (segments : List Segment) :
    slashed (s :: segments) = '/' :: (s ++ slashed segments) := rfl

theorem join_cons_slashed (s : Segment) (segments : List Segment) :
    Text.join ['/'] (s :: segments) = s ++ slashed segments := by
  induction segments generalizing s with
  | nil => simp [Text.join, slashed]
  | cons next segments ih =>
    rw [Text.join_cons (List.cons_ne_nil _ _), ih, slashed_cons]
    simp

theorem sweep_current (written : List Char) (segments : List Segment) :
    sweep written 0 (slashed (current :: segments)) = sweep written 0 (slashed segments) := by
  have hskips : current ++ slashed segments = ['.'] ∨
      ['.', '/'] <+: current ++ slashed segments := by
    cases segments with
    | nil => exact Or.inl rfl
    | cons s segments => exact Or.inr ⟨_, rfl⟩
  rw [slashed_cons, sweep, if_pos ⟨rfl, hskips⟩]
  rfl

theorem sweep_parent (written : List Char) (h : segments ≠ []) :
    sweep written 0 (slashed (parent :: segments)) =
      sweep (rewind written) 0 (slashed segments) := by
  obtain ⟨s, segments, rfl⟩ := List.exists_cons_of_ne_nil h
  have hcurrent : ¬ (parent ++ slashed (s :: segments) = ['.'] ∨
      ['.', '/'] <+: parent ++ slashed (s :: segments)) := by
    simp [parent, slashed_cons]
  have hparent : ['.', '.', '/'] <+: parent ++ slashed (s :: segments) := ⟨_, rfl⟩
  rw [slashed_cons, sweep, if_neg (fun h => hcurrent h.2), if_pos ⟨rfl, hparent⟩]
  rfl

theorem sweep_append (h : '/' ∉ s) (rest : List Char) :
    sweep written 0 (s ++ rest) = sweep (written ++ s) 0 rest := by
  induction s generalizing written with
  | nil => simp
  | cons c s ih =>
    rw [List.mem_cons, not_or] at h
    have hc : c ≠ '/' := Ne.symm h.1
    rw [List.cons_append, sweep, if_neg (fun h => hc h.1), if_neg (fun h => hc h.1), ih h.2,
      List.append_assoc, List.singleton_append]

/-- What stands before the next separator is the segment. -/
theorem eq_of_prefix_slashed {t : Segment} (ht : '/' ∉ t) (hs : '/' ∉ s)
    (h : t ++ ['/'] <+: s ++ slashed segments) : s = t ∧ segments ≠ [] := by
  obtain ⟨rest, hrest⟩ := h
  rw [List.append_assoc, List.singleton_append] at hrest
  cases segments with
  | nil =>
    rw [slashed, List.flatMap_nil, List.append_nil] at hrest
    exact absurd (hrest ▸ by simp) hs
  | cons next segments =>
    refine ⟨?_, List.cons_ne_nil _ _⟩
    have hsplit := congrArg (Text.split ['/']) hrest
    rw [slashed_cons, Text.split_append_cons, Text.split_append_cons, Text.split_of_not_mem _ ht,
      Text.split_of_not_mem _ hs] at hsplit
    exact (List.cons.inj hsplit).1.symm

theorem sweep_segment (h : '/' ∉ s) (hcurrent : s ≠ current)
    (hparent : s = parent → segments = []) :
    sweep written 0 (slashed (s :: segments)) =
      sweep (written ++ '/' :: s) 0 (slashed segments) := by
  have hhere : ¬ (s ++ slashed segments = ['.'] ∨ ['.', '/'] <+: s ++ slashed segments) := by
    rintro (hend | hprefix)
    · cases segments with
      | nil => exact hcurrent ((List.append_nil s).symm.trans hend)
      | cons next segments =>
        have hslash : '/' ∈ s ++ slashed (next :: segments) := by simp [slashed_cons]
        rw [hend] at hslash
        exact absurd hslash (by decide)
    · exact hcurrent (eq_of_prefix_slashed (t := current) (by decide) h hprefix).1
  have habove : ¬ ['.', '.', '/'] <+: s ++ slashed segments := by
    intro hprefix
    obtain ⟨hs, hmore⟩ := eq_of_prefix_slashed (t := parent) (by decide) h hprefix
    exact hmore (hparent hs)
  rw [slashed_cons, sweep, if_neg (fun h => hhere h.2), if_neg (fun h => habove h.2),
    sweep_append h, List.append_assoc, List.singleton_append]

/-! ## Taking back -/

theorem rewind_append (written : List Char) (h : '/' ∉ s) :
    rewind (written ++ '/' :: s) = written := by
  rw [rewind, Text.lastIndex?_append written h]
  exact List.take_left

/-- Taking back what was written is what a `..` does to the segments kept. -/
theorem rewind_join (hkept : Settled true kept) (h : ∀ s ∈ kept, '/' ∉ s) :
    rewind (Text.join ['/'] kept.reverse) = Text.join ['/'] (ascend true kept).reverse := by
  cases hkept with
  | root => rfl
  | down hs hbelow =>
    rw [ascend_of_descends hs hbelow.ne_nil, join_reverse_cons _ (hbelow.ne_nil rfl),
      rewind_append _ (h _ List.mem_cons_self)]

/-! ## The whole path -/

/-- The pass writes the segments kept. -/
theorem sweep_slashed (hkept : Settled true kept) (hwhole : ∀ s ∈ kept, '/' ∉ s)
    (h : ∀ s ∈ segments, '/' ∉ s) :
    sweep (Text.join ['/'] kept.reverse) 0 (slashed segments) =
      Text.join ['/'] (collapse true kept segments).reverse := by
  -- What is written and the segments kept change together, one segment after another.
  induction segments generalizing kept with
  | nil => rfl
  | cons s segments ih =>
    have hmore : ∀ t ∈ segments, '/' ∉ t := fun t ht => h t (List.mem_cons_of_mem s ht)
    rw [collapse]
    split
    · rename_i hcurrent
      rw [hcurrent, sweep_current]
      exact ih hkept hwhole hmore
    · rename_i hcurrent
      split
      · rename_i hparent
        rw [hparent.1, sweep_parent _ hparent.2, rewind_join hkept hwhole]
        refine ih hkept.ascend (fun t ht => ?_) hmore
        rcases List.mem_cons.1 ((ascend_sublist true kept).subset ht) with rfl | ht
        · decide
        · exact hwhole t ht
      · rename_i hparent
        have hs := h s List.mem_cons_self
        have hend (heq : s = parent) : segments = [] := by
          by_contra hne
          exact hparent ⟨heq, hne⟩
        rw [sweep_segment hs hcurrent hend, ← join_reverse_cons s (hkept.ne_nil rfl)]
        by_cases heq : s = parent
        · rw [hend heq]
          rfl
        · refine ih (.down (descends_iff.2 ⟨hcurrent, heq⟩) hkept) (fun t ht => ?_) hmore
          rcases List.mem_cons.1 ht with rfl | ht
          · exact hs
          · exact hwhole t ht

theorem withoutSlash_join (h : ∀ s ∈ kept, '/' ∉ s) :
    withoutSlash (Text.join ['/'] kept.reverse) =
      Text.join ['/'] (dropTrailing kept).reverse := by
  have hends := getLast?_join_reverse h
  match kept with
  | [] => rfl
  | [[]] => rfl
  | [] :: next :: below =>
    rw [withoutSlash, if_pos (hends.2 ⟨rfl, by simp⟩), join_reverse_cons [] (List.cons_ne_nil _ _),
      List.dropLast_concat]
    rfl
  | (c :: s) :: below =>
    rw [withoutSlash, if_neg (fun hslash => by simpa using (hends.1 hslash).1)]
    rfl

/-- The pass over a rooted text writes its canonical spelling. -/
theorem swept_eq {path : List Char} (h : path.head? = some '/') :
    swept path = canonicalText ['/'] true path := by
  obtain ⟨behind, rfl⟩ := List.head?_eq_some_iff.1 h
  have hsplit : Text.split ['/'] ('/' :: behind) = [] :: Text.split ['/'] behind := by
    rw [Text.split_cons, if_pos rfl]
  have hpath : slashed (Text.split ['/'] behind) = '/' :: behind := by
    rw [← List.nil_append (slashed _), ← join_cons_slashed, ← hsplit,
      Text.join_split (List.cons_ne_nil _ _)]
  have hwhole : ∀ s ∈ Text.split ['/'] behind, '/' ∉ s :=
    fun s hs => Text.not_mem_of_mem_split '/' hs
  have hkept : ∀ s ∈ collapse true [[]] (Text.split ['/'] behind), '/' ∉ s := by
    intro s hs
    have hsub := collapse_sublist true [[]] (Text.split ['/'] behind)
    rcases List.mem_cons.1 (hsub.subset (List.mem_reverse.2 hs)) with rfl | hs
    · exact List.not_mem_nil
    · exact hwhole s hs
  have hsweep : sweep [] 0 ('/' :: behind) =
      Text.join ['/'] (collapse true [[]] (Text.split ['/'] behind)).reverse := by
    rw [← hpath, ← sweep_slashed .root (by simp) hwhole]
    rfl
  have hresult : withoutSlash (sweep [] 0 ('/' :: behind)) =
      Text.join ['/'] (keptSegments true (Text.split ['/'] ('/' :: behind))).reverse := by
    rw [hsweep, withoutSlash_join hkept, hsplit]
    rfl
  rw [swept, canonicalText, hresult]
  simp

end Path

/-- The canonical spelling of a rooted path is what one pass over its characters writes. -/
theorem canonical_swept (path : String) (h : Path.Policy.standard.isRooted path) :
    Path.Policy.standard.canonical path = .ok (String.ofList (Path.swept path.toList)) := by
  rw [Path.Policy.standard_isRooted] at h
  rw [Path.Policy.standard_canonical, h, Path.swept_eq (beq_iff_eq.1 h)]

/-- The pass at the root, at doubled separators, at a group that shares its separator with the
next one and at a `..` at the end. -/
theorem canonical_swept_groups :
    Path.swept "/../a/.//../../b/./../c//..".toList = "/c//..".toList ∧
      Path.Policy.standard.canonical "/../a/.//../../b/./../c//.." =
        .ok (String.ofList (Path.swept "/../a/.//../../b/./../c//..".toList)) :=
  ⟨by decide +kernel, canonical_swept _ (by decide +kernel)⟩

end ModuleLoader
