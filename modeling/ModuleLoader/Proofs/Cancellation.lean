import Mathlib.Data.List.Infix
import Mathlib.Tactic.Common
import ModuleLoader.Path.Canonical

/-!
# Segments that take themselves back

A `..` that is not the last segment takes back the segment before it that is still there, be it
empty or not. What is left of a path is told by counting, without a stack.

* `descends` : the segments that a `..` takes back;
* `Grounded`, `Cancels` : no `..` leads above the start, and nothing is left in the end;
* `advance`, `collapse_concat` : the segments kept, one segment after another, and the last one;
* `exists_foldl_of_grounded`, `foldl_of_cancels` : what grounded segments leave on the segments
  kept;
* `exists_origin`, `exists_buried`, `cancels_of_foldl_eq_nil` : where a segment that is kept comes
  from, and when none is.
-/

namespace ModuleLoader.Path

def descends (segment : Segment) : Bool := segment != current && segment != parent

theorem descends_iff {segment : Segment} :
    descends segment ↔ segment ≠ current ∧ segment ≠ parent := by
  simp [descends]

/-- No `..` leads above the start. -/
def Grounded (segments : List Segment) : Prop :=
  ∀ q, q <+: segments → q.count parent ≤ q.countP descends

/-- No `..` leads above the start, and together they lead back to it. -/
structure Cancels (segments : List Segment) : Prop where
  grounded : Grounded segments
  balanced : segments.count parent = segments.countP descends

variable {v w : List Segment} {s : Segment}

/-! ## Counting -/

theorem grounded_nil : Grounded [] := by
  intro q hq
  rw [List.prefix_nil.1 hq]
  exact Nat.le_refl _

theorem Grounded.of_append (h : Grounded (v ++ w)) : Grounded v :=
  fun q hq => h q (hq.trans (List.prefix_append v w))

theorem Grounded.append (hv : Grounded v) (hw : Grounded w) : Grounded (v ++ w) := by
  intro q hq
  rcases List.prefix_or_prefix_of_prefix hq (List.prefix_append v w) with hle | ⟨p, rfl⟩
  · exact hv q hle
  · have hp := hw p ((List.prefix_append_right_inj v).1 hq)
    have hall := hv v (List.prefix_refl v)
    rw [List.count_append, List.countP_append]
    omega

theorem Grounded.concat (hv : Grounded v)
    (h : (v ++ [s]).count parent ≤ (v ++ [s]).countP descends) : Grounded (v ++ [s]) := by
  intro q hq
  rcases List.prefix_concat_iff.1 hq with rfl | hq
  · exact h
  · exact hv q hq

theorem grounded_singleton (h : s ≠ parent) : Grounded [s] := by
  refine grounded_nil.concat ?_
  rw [List.nil_append, List.count_singleton, if_neg (by simpa using h)]
  exact Nat.zero_le _

theorem cancels_nil : Cancels [] := ⟨grounded_nil, rfl⟩

theorem cancels_current : Cancels [current] := ⟨grounded_singleton (by decide), by decide⟩

theorem Cancels.append (hv : Cancels v) (hw : Cancels w) : Cancels (v ++ w) := by
  refine ⟨hv.grounded.append hw.grounded, ?_⟩
  rw [List.count_append, List.countP_append, hv.balanced, hw.balanced]

/-- A `..` takes back the segment before it, with what has taken itself back in between. -/
theorem Cancels.enclosed (hs : descends s) (hv : Cancels v) : Cancels (s :: v ++ [parent]) := by
  have hne := (descends_iff.1 hs).2
  have hcount : (s :: v ++ [parent]).count parent = (s :: v ++ [parent]).countP descends := by
    have hparent : descends parent = false := by decide
    simp [hne, hs, hparent, hv.balanced]
  refine ⟨?_, hcount⟩
  have hopen : Grounded (s :: v) := (grounded_singleton hne).append hv.grounded
  exact hopen.concat (Nat.le_of_eq hcount)

/-- Segments that take themselves back end in no segment that leads down. -/
theorem Cancels.getLast_eq (h : Cancels (v ++ [s])) (hs : s ≠ parent) : s = current := by
  by_contra hcurrent
  have hdescends : descends s := descends_iff.2 ⟨hcurrent, hs⟩
  have hbefore := h.grounded v (List.prefix_append v [s])
  have hall := h.balanced
  rw [List.count_append, List.countP_append, List.count_singleton, List.countP_singleton,
    if_neg (by simpa using hs), if_pos hdescends] at hall
  omega

/-! ## The segments kept -/

/-- The segments kept, last first, after one was read that is not the last. -/
def advance (rooted : Bool) (kept : List Segment) (segment : Segment) : List Segment :=
  if segment = current then kept
  else if segment = parent then ascend rooted kept
  else segment :: kept

/-- The segments kept, last first, after the last one was read. -/
def finish (kept : List Segment) (segment : Segment) : List Segment :=
  if segment = current then kept else segment :: kept

section Advance
variable {rooted : Bool} {kept : List Segment}

@[simp] theorem advance_current : advance rooted kept current = kept := rfl

@[simp] theorem advance_parent : advance rooted kept parent = ascend rooted kept := rfl

@[simp] theorem advance_empty : advance rooted kept [] = [] :: kept := rfl

theorem advance_of_descends (h : descends s) : advance rooted kept s = s :: kept := by
  obtain ⟨hcurrent, hparent⟩ := descends_iff.1 h
  rw [advance, if_neg hcurrent, if_neg hparent]

theorem collapse_concat (rooted : Bool) (kept v : List Segment) (s : Segment) :
    collapse rooted kept (v ++ [s]) = finish (v.foldl (advance rooted) kept) s := by
  induction v generalizing kept with
  | nil => simp [collapse, finish]
  | cons first v ih =>
    have hmore : v ++ [s] ≠ [] := by simp
    rw [List.cons_append, collapse, List.foldl_cons, advance]
    simp only [hmore, ne_eq, not_false_eq_true, and_true]
    split
    · exact ih kept
    · split
      · exact ih _
      · exact ih _

theorem ascend_cons_cons (rooted : Bool) (s t : Segment) (kept : List Segment) :
    ascend rooted (s :: t :: kept) = if s = parent then parent :: s :: t :: kept else t :: kept :=
  rfl

theorem ascend_of_descends (hs : descends s) (hroot : rooted → kept ≠ []) :
    ascend rooted (s :: kept) = kept := by
  obtain ⟨hcurrent, hparent⟩ := descends_iff.1 hs
  cases kept with
  | nil =>
    have hrelative : rooted = false := by
      cases rooted with
      | false => rfl
      | true => exact absurd rfl (hroot rfl)
    simp [ascend, hrelative, hcurrent, hparent]
  | cons last below => rw [ascend_cons_cons, if_neg hparent]

/-- Grounded segments leave those of their own on top that lead down and were not taken back. -/
theorem exists_foldl_of_grounded (hroot : rooted → kept ≠ []) (h : Grounded v) :
    ∃ top, v.foldl (advance rooted) kept = top ++ kept ∧
      top.length + v.count parent = v.countP descends ∧ ∀ t ∈ top, descends t := by
  induction v using List.reverseRecOn with
  | nil => exact ⟨[], rfl, rfl, fun t ht => absurd ht List.not_mem_nil⟩
  | append_singleton v s ih =>
    obtain ⟨top, hfold, hlength, htop⟩ := ih h.of_append
    have hall := h _ (List.prefix_refl _)
    rw [List.count_append, List.countP_append] at hall
    rw [List.foldl_append, hfold, List.count_append, List.countP_append]
    by_cases hcurrent : s = current
    · subst hcurrent
      exact ⟨top, rfl, hlength, htop⟩
    · by_cases hparent : s = parent
      · subst hparent
        -- There is a segment to take back, since no `..` leads above the start.
        have hup : [parent].count parent = 1 ∧ [parent].countP descends = 0 := by decide
        cases top with
        | nil =>
          rw [List.length_nil] at hlength
          omega
        | cons t top =>
          refine ⟨top, ?_, ?_, fun u hu => htop u (List.mem_cons_of_mem t hu)⟩
          · refine ascend_of_descends (htop t List.mem_cons_self) (fun hr hnil => hroot hr ?_)
            exact (List.append_eq_nil_iff.1 hnil).2
          · rw [List.length_cons] at hlength
            omega
      · have hdescends : descends s := descends_iff.2 ⟨hcurrent, hparent⟩
        refine ⟨s :: top, advance_of_descends hdescends, ?_, fun u hu => ?_⟩
        · rw [List.count_singleton, List.countP_singleton, if_neg (by simpa using hparent),
            if_pos hdescends, List.length_cons]
          omega
        · rcases List.mem_cons.1 hu with rfl | hu
          · exact hdescends
          · exact htop u hu

theorem foldl_of_cancels (hroot : rooted → kept ≠ []) (h : Cancels v) :
    v.foldl (advance rooted) kept = kept := by
  obtain ⟨top, hfold, hlength, -⟩ := exists_foldl_of_grounded hroot h.grounded
  have hbalanced := h.balanced
  have hnone : top = [] := List.eq_nil_of_length_eq_zero (by omega)
  rw [hfold, hnone, List.nil_append]

end Advance

/-! ## Where a segment comes from -/

section Origin
variable {rooted : Bool} {start kept : List Segment}

/-- What a `..` may have been read on when it leaves a segment other than `..` on top. -/
theorem eq_of_ascend (hroot : rooted → kept ≠ []) {now : List Segment} (hs : s ≠ parent)
    (h : ascend rooted now = s :: kept) : ∃ t, now = t :: s :: kept ∧ t ≠ parent := by
  match now with
  | [] =>
    rw [ascend, List.cons.injEq] at h
    exact absurd h.1.symm hs
  | [t] =>
    rw [ascend] at h
    split at h
    · rename_i hrooted
      rw [List.cons.injEq] at h
      exact absurd h.2.symm (hroot hrooted)
    · split at h
      · rw [List.cons.injEq] at h
        exact absurd h.1.symm hs
      · cases h
  | t :: last :: below =>
    rw [ascend_cons_cons] at h
    split at h
    · rw [List.cons.injEq] at h
      exact absurd h.1.symm hs
    · rename_i ht
      exact ⟨t, by rw [h], ht⟩

theorem eq_of_ascend_eq_nil {now : List Segment} (h : ascend false now = []) :
    ∃ t, now = [t] ∧ t ≠ parent := by
  match now with
  | [] => cases h
  | [t] =>
    refine ⟨t, rfl, ?_⟩
    rintro rfl
    cases h
  | t :: last :: below =>
    rw [ascend_cons_cons] at h
    split at h <;> cases h

/-- A segment other than `..` that lies on top was there from the start, or it was read and what
was read since then has taken itself back. -/
theorem exists_origin (hroot : rooted → kept ≠ []) (hs : s ≠ parent)
    (h : v.foldl (advance rooted) start = s :: kept) :
    s :: kept <:+ start ∨ ∃ a b, v = a ++ s :: b ∧ a.foldl (advance rooted) start = kept ∧
      descends s ∧ Cancels b := by
  -- The segment that a `..` took back has its own origin, and below it lies what is sought.
  induction hlength : v.length using Nat.strong_induction_on generalizing v s kept with
  | _ n ih =>
    subst hlength
    rcases List.eq_nil_or_concat v with rfl | ⟨v, last, rfl⟩
    · rw [List.foldl_nil] at h
      exact Or.inl ⟨[], h.symm⟩
    · rw [List.concat_eq_append] at h ih ⊢
      rw [List.foldl_append, List.foldl_cons, List.foldl_nil] at h
      have hshorter : v.length < (v ++ [last]).length := by simp
      by_cases hcurrent : last = current
      · subst hcurrent
        rcases ih _ hshorter hroot hs h rfl with hthere | ⟨a, b, rfl, ha, hdescends, hb⟩
        · exact Or.inl hthere
        · exact Or.inr ⟨a, b ++ [current], by simp, ha, hdescends, hb.append cancels_current⟩
      · by_cases hparent : last = parent
        · subst hparent
          obtain ⟨t, hnow, ht⟩ := eq_of_ascend hroot hs h
          rcases ih _ hshorter (fun _ => List.cons_ne_nil _ _) ht hnow rfl with
            hthere | ⟨a, b, rfl, ha, hdescends, hb⟩
          · exact Or.inl ((List.suffix_cons t _).trans hthere)
          · have hearlier : a.length < (a ++ t :: b ++ [parent]).length := by simp
            rcases ih _ hearlier hroot hs ha rfl with hthere | ⟨c, d, rfl, hc, hbelow, hd⟩
            · exact Or.inl hthere
            · refine Or.inr ⟨c, d ++ (t :: b ++ [parent]), by simp, hc, hbelow, ?_⟩
              exact hd.append (hb.enclosed hdescends)
        · have hdescends : descends last := descends_iff.2 ⟨hcurrent, hparent⟩
          rw [advance_of_descends hdescends, List.cons.injEq] at h
          obtain ⟨rfl, hv⟩ := h
          exact Or.inr ⟨v, [], rfl, hv, hdescends, cancels_nil⟩

/-- Segments that leave nothing have taken themselves back. -/
theorem cancels_of_foldl_eq_nil (h : v.foldl (advance false) [] = []) : Cancels v := by
  induction hlength : v.length using Nat.strong_induction_on generalizing v with
  | _ n ih =>
    subst hlength
    rcases List.eq_nil_or_concat v with rfl | ⟨v, last, rfl⟩
    · exact cancels_nil
    · rw [List.concat_eq_append] at h ih ⊢
      rw [List.foldl_append, List.foldl_cons, List.foldl_nil] at h
      by_cases hcurrent : last = current
      · subst hcurrent
        exact (ih _ (by simp) h rfl).append cancels_current
      · by_cases hparent : last = parent
        · subst hparent
          obtain ⟨t, hnow, ht⟩ := eq_of_ascend_eq_nil h
          rcases exists_origin (by simp) ht hnow with hthere | ⟨a, b, rfl, ha, hdescends, hb⟩
          · exact absurd (List.suffix_nil.1 hthere) (List.cons_ne_nil _ _)
          · have hbefore := ih a.length (by simp) ha rfl
            rw [List.append_assoc]
            exact hbefore.append (hb.enclosed hdescends)
        · rw [advance_of_descends (descends_iff.2 ⟨hcurrent, hparent⟩)] at h
          cases h

/-- A segment that lies below others was read, and no `..` since then has led above it. -/
theorem exists_buried {top : List Segment} (hs : descends s) (htop : ∀ t ∈ top, descends t)
    (h : v.foldl (advance false) [] = top ++ s :: kept) :
    ∃ a b, v = a ++ s :: b ∧ a.foldl (advance false) [] = kept ∧ Grounded b := by
  induction top generalizing v with
  | nil =>
    rcases exists_origin (by simp) (descends_iff.1 hs).2 h with hthere | ⟨a, b, rfl, ha, -, hb⟩
    · exact absurd (List.suffix_nil.1 hthere) (List.cons_ne_nil _ _)
    · exact ⟨a, b, rfl, ha, hb.grounded⟩
  | cons t top ih =>
    have ht := (descends_iff.1 (htop t List.mem_cons_self)).2
    rcases exists_origin (by simp) ht h with hthere | ⟨a, b, rfl, ha, -, hb⟩
    · exact absurd (List.suffix_nil.1 hthere) (List.cons_ne_nil _ _)
    · obtain ⟨c, d, rfl, hc, hd⟩ := ih (fun u hu => htop u (List.mem_cons_of_mem t hu)) ha
      refine ⟨c, d ++ t :: b, by simp, hc, hd.append ?_⟩
      exact (grounded_singleton ht).append hb.grounded

end Origin

end ModuleLoader.Path
