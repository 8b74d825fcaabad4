import ModuleLoader.Proofs.Canonical
import ModuleLoader.Proofs.Cancellation

/-!
# Whether a canonical spelling is rooted

The canonical spelling of a rooted path is rooted. A relative path becomes rooted when what stands
before one of its doubled separators takes itself back: the empty segment in the middle then comes
first.

* `Upward`, `Settled` : the form of the segments kept, and that reading one more keeps it;
* `Unmoored`, `getLast?_collapse` : the relative paths whose first segment left is empty;
* `head?_canonicalText` : when a canonical spelling begins with a separator;
* `canonical_isRooted_iff` : exactly the rooted paths and the unmoored ones get a rooted spelling.
-/

namespace ModuleLoader

namespace Path
variable {rooted : Bool} {kept : List Segment} {s : Segment}

/-! ## The form of the segments kept -/

/-- What no `..` can take back from a relative path: `..` on top of `..`, or of a first `.`. -/
inductive Upward : List Segment → Prop
  | nothing : Upward []
  | here : Upward [current]
  | above {kept : List Segment} (below : Upward kept) : Upward (parent :: kept)

/-- The segments kept, last first, while a path is read. -/
inductive Settled : (rooted : Bool) → List Segment → Prop
  | root : Settled true [[]]
  | upward {kept : List Segment} (h : Upward kept) : Settled false kept
  | down {rooted : Bool} {kept : List Segment} {s : Segment} (hs : descends s)
      (h : Settled rooted kept) : Settled rooted (s :: kept)

theorem Settled.ne_nil (h : Settled rooted kept) (hroot : rooted) : kept ≠ [] := by
  cases h with
  | root => exact List.cons_ne_nil _ _
  | upward h => cases hroot
  | down hs h => exact List.cons_ne_nil _ _

theorem settled_first (h : rooted → s = []) : Settled rooted [s] := by
  cases rooted with
  | true =>
    rw [h rfl]
    exact .root
  | false =>
    by_cases hcurrent : s = current
    · rw [hcurrent]
      exact .upward .here
    · by_cases hparent : s = parent
      · rw [hparent]
        exact .upward (.above .nothing)
      · exact .down (descends_iff.2 ⟨hcurrent, hparent⟩) (.upward .nothing)

protected theorem Settled.ascend (h : Settled rooted kept) :
    Settled rooted (ascend rooted kept) := by
  cases h with
  | root => exact .root
  | upward h =>
    cases h with
    | nothing => exact .upward (.above .nothing)
    | here => exact .upward (.above .here)
    | above below =>
      rw [Kept.ascend_above]
      exact .upward (.above (.above below))
  | down hs h =>
    rw [ascend_of_descends hs h.ne_nil]
    exact h

protected theorem Settled.advance (h : Settled rooted kept) (s : Segment) :
    Settled rooted (advance rooted kept s) := by
  unfold advance
  split
  · exact h
  · rename_i hcurrent
    split
    · exact h.ascend
    · rename_i hparent
      exact .down (descends_iff.2 ⟨hcurrent, hparent⟩) h

theorem Settled.foldl (h : Settled rooted kept) (v : List Segment) :
    Settled rooted (v.foldl (advance rooted) kept) := by
  induction v generalizing kept with
  | nil => exact h
  | cons s v ih => exact ih (h.advance s)

theorem Upward.not_mem_nil (h : Upward kept) : [] ∉ kept := by
  induction h with
  | nothing => exact List.not_mem_nil
  | here => decide
  | above below ih =>
    rw [List.mem_cons, not_or]
    exact ⟨by decide, ih⟩

theorem Settled.getLast?_of_rooted (h : Settled rooted kept) (hroot : rooted) :
    kept.getLast? = some [] := by
  induction h with
  | root => rfl
  | upward h => cases hroot
  | down hs h ih =>
    obtain ⟨t, below, rfl⟩ := List.exists_cons_of_ne_nil (h.ne_nil hroot)
    rw [List.getLast?_cons_cons]
    exact ih hroot

/-- On an empty segment at the bottom there are only segments that lead down. -/
theorem Settled.descends_of_getLast? (h : Settled rooted kept) (hbottom : kept.getLast? = some []) :
    ∃ top, kept = top ++ [[]] ∧ ∀ t ∈ top, descends t := by
  induction h with
  | root => exact ⟨[], rfl, fun t ht => absurd ht List.not_mem_nil⟩
  | upward h => exact absurd (List.mem_of_getLast? hbottom) h.not_mem_nil
  | @down _ kept s hs h ih =>
    cases kept with
    -- Only on nothing can the empty segment be the one that was read.
    | nil =>
      obtain rfl : s = [] := by simpa using hbottom
      exact ⟨[], rfl, fun t ht => absurd ht List.not_mem_nil⟩
    | cons t below =>
      obtain ⟨top, htop, hdescends⟩ := ih (by rwa [List.getLast?_cons_cons] at hbottom)
      refine ⟨s :: top, by rw [htop, List.cons_append], fun u hu => ?_⟩
      rcases List.mem_cons.1 hu with rfl | hu
      · exact hs
      · exact hdescends u hu

/-- A first segment `.` stays where it is. -/
theorem getLast?_foldl_of_current (v : List Segment) (h : kept.getLast? = some current) :
    (v.foldl (advance false) kept).getLast? = some current := by
  induction v generalizing kept with
  | nil => exact h
  | cons s v ih =>
    refine ih ?_
    have hne : kept ≠ [] := by
      rintro rfl
      cases h
    obtain ⟨last, below, rfl⟩ := List.exists_cons_of_ne_nil hne
    unfold advance
    split
    · exact h
    · split
      · cases below with
        | nil =>
          obtain rfl : last = current := by simpa using h
          rfl
        | cons next more =>
          rw [ascend_cons_cons]
          split
          · simpa using h
          · rwa [List.getLast?_cons_cons] at h
      · rwa [List.getLast?_cons_of_ne_nil hne]

/-! ## The first segment left -/

/-- What stands before some empty segment takes itself back, and no `..` behind it leads above
it. A first `.` is never taken back, and the last segment is left as it is. -/
def Unmoored (segments : List Segment) : Prop :=
  ∃ before after, segments = before ++ [] :: after ∧ before ≠ [] ∧
    before.head? ≠ some current ∧ Cancels before ∧ Grounded after.dropLast

theorem not_unmoored_singleton (s : Segment) : ¬ Unmoored [s] := by
  rintro ⟨before, after, hsplit, hbefore, -⟩
  obtain ⟨b, more, rfl⟩ := List.exists_cons_of_ne_nil hbefore
  simp at hsplit

theorem advance_nil (h : s ≠ current) : advance false [] s = [s] := by
  by_cases hparent : s = parent
  · rw [hparent]
    rfl
  · exact advance_of_descends (descends_iff.2 ⟨h, hparent⟩)

theorem getLast?_finish (kept : List Segment) (s : Segment) :
    (finish kept s).getLast? = some [] ↔ kept.getLast? = some [] ∨ kept = [] ∧ s = [] := by
  unfold finish
  cases kept with
  | nil =>
    by_cases hs : s = current
    · simp [hs, current]
    · simp [hs]
  | cons last below =>
    split
    · simp
    · simp [List.getLast?_cons_cons]

section Bottom
variable {first last : Segment} {v : List Segment}

/-- Where an empty segment at the bottom comes from. -/
theorem unmoored_of_bottom (hfirst : first ≠ []) (hcurrent : first ≠ current)
    (h : ((first :: v).foldl (advance false) []).getLast? = some [] ∨
      (first :: v).foldl (advance false) [] = [] ∧ last = []) :
    Unmoored (first :: v ++ [last]) := by
  rcases h with hempty | ⟨hnothing, rfl⟩
  · have hsettled : Settled false ((first :: v).foldl (advance false) []) :=
      (Settled.upward .nothing).foldl _
    obtain ⟨top, htop, hdescends⟩ := hsettled.descends_of_getLast? hempty
    obtain ⟨a, b, hsplit, ha, hb⟩ := exists_buried (by decide) hdescends htop
    -- Something stands before it, as the first segment is not empty.
    cases a with
    | nil =>
      rw [List.nil_append, List.cons.injEq] at hsplit
      exact absurd hsplit.1 hfirst
    | cons c a =>
      have hc : first = c := (List.cons.inj hsplit).1
      refine ⟨c :: a, b ++ [last], ?_, List.cons_ne_nil _ _, ?_, cancels_of_foldl_eq_nil ha, ?_⟩
      · rw [hsplit, List.append_assoc]
        rfl
      · simpa [← hc] using hcurrent
      · rwa [List.dropLast_concat]
  · exact ⟨first :: v, [], rfl, List.cons_ne_nil _ _, by simpa using hcurrent,
      cancels_of_foldl_eq_nil hnothing, grounded_nil⟩

/-- What stands before the empty segment leaves nothing, and what stands behind it leaves it at
the bottom. -/
theorem bottom_of_unmoored (h : Unmoored (first :: v ++ [last])) :
    ((first :: v).foldl (advance false) []).getLast? = some [] ∨
      (first :: v).foldl (advance false) [] = [] ∧ last = [] := by
  obtain ⟨before, after, hsplit, -, -, hbefore, hafter⟩ := h
  have hback : before.foldl (advance false) [] = [] := foldl_of_cancels (by simp) hbefore
  rcases List.eq_nil_or_concat after with rfl | ⟨after, t, rfl⟩
  · obtain ⟨hv, hlast⟩ := List.append_inj' hsplit rfl
    right
    exact ⟨by rw [hv, hback], by simpa using hlast⟩
  · rw [List.concat_eq_append, ← List.cons_append, ← List.append_assoc] at hsplit
    rw [List.concat_eq_append, List.dropLast_concat] at hafter
    obtain ⟨hv, -⟩ := List.append_inj' hsplit rfl
    have hroot : false = true → ([[]] : List Segment) ≠ [] := by simp
    obtain ⟨top, htop, -⟩ := exists_foldl_of_grounded hroot hafter
    left
    rw [hv, List.foldl_append, hback, List.foldl_cons, advance_empty, htop]
    exact List.getLast?_concat

theorem ne_current_of_unmoored {rest : List Segment} (h : Unmoored (first :: rest)) :
    first ≠ current := by
  obtain ⟨before, after, hsplit, hbefore, hhead, -⟩ := h
  obtain ⟨b, more, rfl⟩ := List.exists_cons_of_ne_nil hbefore
  rw [(List.cons.inj hsplit).1]
  simpa using hhead

/-- What is left of a relative path begins with an empty segment exactly if it is unmoored. -/
theorem getLast?_collapse {rest : List Segment} (hfirst : first ≠ []) :
    (collapse false [first] rest).getLast? = some [] ↔ Unmoored (first :: rest) := by
  rcases List.eq_nil_or_concat rest with rfl | ⟨v, last, rfl⟩
  · have hcollapse : collapse false [first] [] = [first] := rfl
    rw [hcollapse, List.getLast?_singleton, Option.some.injEq]
    exact iff_of_false hfirst (not_unmoored_singleton first)
  · rw [List.concat_eq_append, collapse_concat, getLast?_finish]
    by_cases hcurrent : first = current
    · subst hcurrent
      have hstays := getLast?_foldl_of_current v (show [current].getLast? = some current from rfl)
      refine iff_of_false ?_ (fun h => ne_current_of_unmoored h rfl)
      rintro (hempty | ⟨hempty, -⟩)
      · rw [hstays] at hempty
        exact absurd hempty (by decide)
      · rw [hempty] at hstays
        cases hstays
    · -- Any other first segment is kept as if it were read like the others.
      have hfold : v.foldl (advance false) [first] = (first :: v).foldl (advance false) [] := by
        rw [List.foldl_cons, advance_nil hcurrent]
      rw [hfold]
      exact ⟨unmoored_of_bottom hfirst hcurrent, bottom_of_unmoored⟩

end Bottom

/-! ## The spelling -/

theorem join_reverse_cons (s : Segment) (h : kept ≠ []) :
    Text.join ['/'] (s :: kept).reverse = Text.join ['/'] kept.reverse ++ '/' :: s := by
  have hreverse : kept.reverse ≠ [] := mt List.reverse_eq_nil_iff.1 h
  rw [List.reverse_cons, Text.join_append _ hreverse (List.cons_ne_nil _ _), List.append_assoc,
    Text.join, Text.join, List.intercalate_singleton, List.singleton_append]

theorem head?_join_iff {pieces : List Segment} (h : ∀ piece ∈ pieces, '/' ∉ piece) :
    (Text.join ['/'] pieces).head? = some '/' ↔ pieces.head? = some [] ∧ pieces ≠ [[]] := by
  match pieces with
  | [] => simp [Text.join]
  | [[]] => simp [Text.join]
  | [] :: next :: more => simp [Text.join_cons]
  | (c :: piece) :: rest =>
    have hc : c ≠ '/' := by
      rintro rfl
      exact h _ List.mem_cons_self List.mem_cons_self
    cases rest with
    | nil => simpa [Text.join] using hc
    | cons next more => simpa [Text.join_cons] using hc

/-- A text ends in a separator exactly if its last segment is empty, but for the empty text. -/
theorem getLast?_join_reverse (h : ∀ s ∈ kept, '/' ∉ s) :
    (Text.join ['/'] kept.reverse).getLast? = some '/' ↔ kept.head? = some [] ∧ kept ≠ [[]] := by
  match kept with
  | [] => simp [Text.join]
  | [s] =>
    have hs := h s List.mem_cons_self
    refine iff_of_false (fun hlast => hs ?_) (fun hempty => ?_)
    · exact List.mem_of_getLast? (by simpa [Text.join] using hlast)
    · exact hempty.2 (by simpa using hempty.1)
  | s :: next :: below =>
    have hs := h s List.mem_cons_self
    rw [join_reverse_cons s (List.cons_ne_nil _ _), List.getLast?_append_cons]
    cases s with
    | nil => simp
    | cons c s =>
      rw [List.getLast?_cons_cons]
      refine iff_of_false (fun hlast => hs (List.mem_of_getLast? hlast)) (by simp)

theorem getLast?_dropTrailing {kept : List Segment} (h : dropTrailing kept ≠ [[]]) :
    (dropTrailing kept).getLast? = kept.getLast? := by
  unfold dropTrailing at h ⊢
  split
  · rename_i below
    cases below with
    | nil => rfl
    | cons last below => simp [List.getLast?_cons_cons]
  · rfl

/-- Unless it is the root or the directory itself, a canonical spelling begins with a separator
if the first segment left is empty. -/
theorem head?_canonicalText {path : List Char} {first : Segment} {rest : List Segment}
    (hsplit : Text.split ['/'] path = first :: rest)
    (h : Text.join ['/'] (keptSegments rooted (Text.split ['/'] path)).reverse ≠ []) :
    (canonicalText ['/'] rooted path).head? = some '/' ↔
      (collapse rooted [first] rest).getLast? = some [] := by
  have hsub := keptSegments_sublist rooted (Text.split ['/'] path)
  have hwhole : ∀ piece ∈ (keptSegments rooted (Text.split ['/'] path)).reverse, '/' ∉ piece :=
    fun piece hp => Text.not_mem_of_mem_split '/' (hsub.subset hp)
  have hseveral : keptSegments rooted (Text.split ['/'] path) ≠ [[]] := by
    intro hone
    rw [hone] at h
    exact h rfl
  rw [canonicalText_of_join path rooted h, head?_join_iff hwhole, List.head?_reverse]
  rw [hsplit] at hseveral ⊢
  have hlast : (keptSegments rooted (first :: rest)).getLast? =
      (collapse rooted [first] rest).getLast? := getLast?_dropTrailing hseveral
  rw [hlast]
  refine and_iff_left (fun hone => hseveral ?_)
  rw [← List.reverse_reverse (keptSegments rooted (first :: rest)), hone]
  rfl

theorem head?_canonicalText_of_rooted {path : List Char} (h : path.head? = some '/') :
    (canonicalText ['/'] true path).head? = some '/' := by
  obtain ⟨behind, rfl⟩ := List.head?_eq_some_iff.1 h
  have hsplit : Text.split ['/'] ('/' :: behind) = [] :: Text.split ['/'] behind := by
    rw [Text.split_cons, if_pos rfl]
  by_cases hempty : Text.join ['/'] (keptSegments true (Text.split ['/'] ('/' :: behind))).reverse
      = []
  · rw [canonicalText_of_empty true (List.cons_ne_nil _ _) hempty]
    rfl
  · rw [head?_canonicalText hsplit hempty]
    obtain ⟨v, last, hv⟩ : ∃ v last, Text.split ['/'] behind = v ++ [last] :=
      ⟨_, _, (List.dropLast_concat_getLast (Text.split_ne_nil ['/'] behind)).symm⟩
    rw [hv, collapse_concat, getLast?_finish]
    exact Or.inl ((Settled.root.foldl v).getLast?_of_rooted rfl)

theorem head?_canonicalText_of_relative {path : List Char} (hne : path ≠ [])
    (h : path.head? ≠ some '/') :
    (canonicalText ['/'] false path).head? = some '/' ↔
      canonicalText ['/'] false path ≠ current ∧ Unmoored (Text.split ['/'] path) := by
  obtain ⟨first, rest, hsplit⟩ := List.exists_cons_of_ne_nil (Text.split_ne_nil ['/'] path)
  have hfirst : first ≠ [] := by
    rintro rfl
    have hpath := Text.join_split (List.cons_ne_nil '/' []) path
    rw [hsplit] at hpath
    cases rest with
    | nil => exact hne hpath.symm
    | cons next more =>
      rw [Text.join_cons (List.cons_ne_nil _ _)] at hpath
      exact h (by rw [← hpath]; rfl)
  by_cases hempty : Text.join ['/'] (keptSegments false (Text.split ['/'] path)).reverse = []
  · rw [canonicalText_of_empty false hne hempty]
    refine iff_of_false (by decide) (fun hunmoored => hunmoored.1 rfl)
  · have hhead := head?_canonicalText hsplit hempty
    rw [getLast?_collapse hfirst, ← hsplit] at hhead
    refine ⟨fun hslash => ⟨fun hcurrent => ?_, hhead.1 hslash⟩, fun hunmoored => hhead.2 hunmoored.2⟩
    rw [hcurrent] at hslash
    exact absurd hslash (by decide)

end Path

open ModuleLoader.Path in
/-- Exactly the rooted paths have a rooted canonical spelling, and those relative ones that are
unmoored and of which something is left. -/
theorem canonical_isRooted_iff (path : String) :
    ∃ spelling, Policy.standard.canonical path = .ok spelling ∧
      (Policy.standard.isRooted spelling ↔
        Policy.standard.isRooted path ∨
          spelling ≠ "." ∧ Unmoored (Text.split ['/'] path.toList)) := by
  refine ⟨_, Policy.standard_canonical path, ?_⟩
  have hdot (text : List Char) : String.ofList text = "." ↔ text = current := by
    rw [show "." = String.ofList current from rfl, String.ofList_inj]
  rw [Policy.standard_isRooted, Policy.standard_isRooted, beq_iff_eq, beq_iff_eq,
    String.toList_ofList, Ne, hdot]
  by_cases hhead : path.toList.head? = some '/'
  · rw [beq_iff_eq.2 hhead]
    exact iff_of_true (head?_canonicalText_of_rooted hhead) (Or.inl hhead)
  · rw [beq_eq_false_iff_ne.2 hhead]
    by_cases hne : path.toList = []
    · rw [hne]
      refine iff_of_false (by decide) ?_
      rintro (hrooted | ⟨-, hunmoored⟩)
      · exact absurd hrooted (by decide)
      · exact not_unmoored_singleton [] hunmoored
    · rw [head?_canonicalText_of_relative hne hhead]
      exact (or_iff_right hhead).symm

/-- What a `..` took back leaves a doubled separator in front. -/
theorem relative_becomes_rooted : ∃ spelling,
    Path.Policy.standard.canonical "a/..//b" = .ok spelling ∧
      ¬ (Path.Policy.standard.isRooted spelling ↔ Path.Policy.standard.isRooted "a/..//b") :=
  ⟨"/b", by decide +kernel⟩

end ModuleLoader
