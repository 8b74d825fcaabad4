import ModuleLoader.Proofs.SecondPass

/-!
# The normal form of a path

Canonical spellings have a form that can be told from the spelling alone, and the paths of that
form that do not end in a separator are the ones that are spelled canonically already.

* `Climbs`, `Normal` : the form;
* `climbs_iff_upward` : what `..` climbs over is what no `..` can take back;
* `Finished.normal`, `Normal.finished` : exactly what may be left of a path is of this form;
* `normal_spell`, `spell_eq_iff` : canonical spellings, and the texts that are their own;
* `canonical_normal` : both for paths.
-/

namespace ModuleLoader

namespace Path
variable {rooted : Bool} {segments before after top below kept ups : List Segment} {s : Segment}

/-- Segments that lead up, perhaps from the directory itself. -/
def Climbs (segments : List Segment) : Prop :=
  ∃ ups, (segments = ups ∨ segments = current :: ups) ∧ ∀ s ∈ ups, s = parent

/-- No segment but the first is a `.`, and before a `..` that is neither first nor last there are
only segments that lead up. -/
structure Normal (segments : List Segment) : Prop where
  here : current ∉ segments.tail
  above : ∀ before after, segments = before ++ parent :: after → before ≠ [] → after ≠ [] →
    Climbs before

/-! ## Leading up -/

theorem Upward.append (h : Upward below) (hups : ∀ s ∈ ups, s = parent) :
    Upward (ups ++ below) := by
  induction ups with
  | nil => exact h
  | cons s ups ih =>
    obtain rfl := hups s List.mem_cons_self
    exact .above (ih (fun t ht => hups t (List.mem_cons_of_mem _ ht)))

theorem Upward.of_suffix (h : Upward kept) (hbelow : below <:+ kept) : Upward below := by
  induction h with
  | nothing =>
    rw [List.suffix_nil.1 hbelow]
    exact .nothing
  | here =>
    rcases List.suffix_cons_iff.1 hbelow with rfl | hbelow
    · exact .here
    · rw [List.suffix_nil.1 hbelow]
      exact .nothing
  | above h ih =>
    rcases List.suffix_cons_iff.1 hbelow with rfl | hbelow
    · exact .above h
    · exact ih hbelow

theorem climbs_iff_upward : Climbs before ↔ Upward before.reverse := by
  constructor
  · rintro ⟨ups, rfl | rfl, hups⟩
    · simpa using Upward.nothing.append (fun s hs => hups s (List.mem_reverse.1 hs))
    · simpa using Upward.here.append (fun s hs => hups s (List.mem_reverse.1 hs))
  · intro h
    rw [← List.reverse_reverse before]
    generalize before.reverse = kept at h ⊢
    induction h with
    | nothing => exact ⟨[], Or.inl rfl, by simp⟩
    | here => exact ⟨[], Or.inr rfl, by simp⟩
    | above h ih =>
      obtain ⟨ups, hform, hups⟩ := ih
      refine ⟨ups ++ [parent], ?_, fun s hs => ?_⟩
      · rcases hform with hform | hform
        · exact Or.inl (by rw [List.reverse_cons, hform])
        · exact Or.inr (by rw [List.reverse_cons, hform, List.cons_append])
      · rcases List.mem_append.1 hs with hs | hs
        · exact hups s hs
        · exact List.eq_of_mem_singleton hs

/-! ## What is left of a path -/

theorem Settled.upward_of_append (h : Settled rooted kept)
    (hsplit : kept = top ++ parent :: below) : Upward below := by
  induction h generalizing top with
  | root =>
    cases top with
    | nil => cases hsplit
    | cons t top => simp at hsplit
  | upward h => exact h.of_suffix ⟨top ++ [parent], by simp [hsplit]⟩
  | down hs h ih =>
    cases top with
    | nil => exact absurd (List.cons.inj hsplit).1 (descends_iff.1 hs).2
    | cons t top => exact ih (List.cons.inj hsplit).2

theorem Finished.current_not_mem (h : Finished rooted kept) : current ∉ kept.dropLast := by
  induction kept with
  | nil => exact List.not_mem_nil
  | cons s below ih =>
    by_cases hne : below = []
    · subst hne
      exact List.not_mem_nil
    · obtain ⟨hs, hbelow⟩ := h s below rfl hne
      rw [List.dropLast_cons_of_ne_nil hne, List.mem_cons, not_or]
      exact ⟨Ne.symm hs, ih hbelow.finished⟩

/-- What is left of a path is normal. -/
theorem Finished.normal (h : Finished rooted kept) : Normal kept.reverse := by
  refine ⟨?_, fun before after hsplit _ hafter => ?_⟩
  · rw [List.tail_reverse, List.mem_reverse]
    exact h.current_not_mem
  · obtain ⟨s, more, hmore⟩ := List.exists_cons_of_ne_nil (mt List.reverse_eq_nil_iff.1 hafter)
    have hkept : kept = s :: (more ++ parent :: before.reverse) := by
      rw [← List.reverse_reverse kept, hsplit]
      simp [hmore]
    obtain ⟨-, hbelow⟩ := h s _ hkept (by simp)
    exact climbs_iff_upward.2 (hbelow.upward_of_append rfl)

theorem Normal.settled (h : Normal segments) (hsplit : segments = before ++ after)
    (hbefore : before ≠ []) (hafter : after ≠ []) : Settled false before.reverse := by
  induction before using List.reverseRecOn generalizing after with
  | nil => exact absurd rfl hbefore
  | append_singleton v s ih =>
    rw [List.append_assoc, List.singleton_append] at hsplit
    rw [List.reverse_concat]
    by_cases hv : v = []
    · rw [hv]
      exact settled_first (by simp)
    · have hcurrent : s ≠ current := by
        rintro rfl
        obtain ⟨t, v, rfl⟩ := List.exists_cons_of_ne_nil hv
        exact h.here (by simp [hsplit])
      by_cases hparent : s = parent
      · rw [hparent] at hsplit ⊢
        exact .upward (.above (climbs_iff_upward.1 (h.above v after hsplit hv hafter)))
      · exact .down (descends_iff.2 ⟨hcurrent, hparent⟩) (ih hsplit hv (List.cons_ne_nil _ _))

/-- What is normal may be left of a path. -/
theorem Normal.finished (h : Normal segments) : Finished false segments.reverse := by
  intro s below hsplit hne
  have hsegments : segments = below.reverse ++ [s] := by
    rw [← List.reverse_reverse segments, hsplit, List.reverse_cons]
  have hreverse : below.reverse ≠ [] := mt List.reverse_eq_nil_iff.1 hne
  refine ⟨?_, ?_⟩
  · rintro rfl
    obtain ⟨t, v, hv⟩ := List.exists_cons_of_ne_nil hreverse
    exact h.here (by simp [hsegments, hv])
  · simpa using h.settled hsegments hreverse (List.cons_ne_nil _ _)

/-- A normal path with a root has a `..` at its end only. -/
theorem Normal.parent_not_mem (h : Normal segments) (hroot : segments.head? = some []) :
    parent ∉ segments.dropLast := by
  intro hmem
  obtain ⟨before, after, hdrop⟩ := List.append_of_mem hmem
  obtain ⟨last, hlast⟩ : ∃ last, segments = before ++ parent :: (after ++ [last]) := by
    have hne : segments ≠ [] := by
      rintro rfl
      cases hroot
    refine ⟨segments.getLast hne, ?_⟩
    conv_lhs => rw [← List.dropLast_concat_getLast hne, hdrop]
    simp
  cases before with
  | nil =>
    rw [hlast] at hroot
    cases hroot
  | cons first before =>
    obtain rfl : first = [] := by simpa [hlast] using hroot
    obtain ⟨ups, hform | hform, hups⟩ := h.above _ _ hlast (List.cons_ne_nil _ _) (by simp)
    · exact absurd (hups [] (hform ▸ List.mem_cons_self)) (by decide)
    · cases hform

/-! ## Canonical spellings -/

theorem normal_of_not_mem (hcurrent : current ∉ segments.tail) (hparent : parent ∉ segments) :
    Normal segments :=
  ⟨hcurrent, fun before after hsplit => absurd (by simp [hsplit]) hparent⟩

theorem normal_spell (path : List Char) : Normal (Text.split ['/'] (spell path)) := by
  by_cases h : Text.join ['/'] (leftOf path).reverse = []
  · rcases spell_of_nothing h with rfl | hspell | hspell
    · exact normal_of_not_mem (by decide) (by decide)
    · rw [hspell]
      exact normal_of_not_mem (by decide) (by decide)
    · rw [hspell]
      exact normal_of_not_mem (by decide) (by decide)
  · rw [split_spell h]
    exact (finished_leftOf path).normal

theorem dropTrailing_of_head? (h : kept.head? ≠ some []) : dropTrailing kept = kept := by
  unfold dropTrailing
  split
  · exact absurd rfl h
  · rfl

variable {path : List Char}

/-- A path that is its own canonical spelling ends in no separator, unless it is the root. -/
theorem eq_root_of_spell_eq (h : spell path = path) (hlast : path.getLast? = some '/') :
    path = ['/'] := by
  by_cases hkept : Text.join ['/'] (leftOf path).reverse = []
  · rcases spell_of_nothing hkept with rfl | hspell | hspell
    · cases hlast
    · rw [← h, hspell]
    · rw [← h, hspell] at hlast
      exact absurd hlast (by decide)
  · have hjoin := (spell_of_kept hkept).symm.trans h
    have hends := hlast
    rw [← hjoin, getLast?_join_reverse (fun _ => not_mem_of_mem_leftOf)] at hends
    obtain ⟨below, hbelow⟩ := List.head?_eq_some_iff.1 hends.1
    by_cases hroot : below = [[]]
    · rw [← hjoin, hbelow, hroot]
      rfl
    · have hne : below ≠ [] := fun hnil => hends.2 (by rw [hbelow, hnil])
      -- The second spelling is shorter, and it is the path again.
      have hless := spell_of_trailing hbelow hne hroot
      rw [h, h] at hless
      simp at hless

/-- The texts that are their own canonical spelling. -/
theorem spell_eq_iff :
    spell path = path ↔
      Normal (Text.split ['/'] path) ∧ (path.getLast? = some '/' → path = ['/']) := by
  constructor
  · intro h
    have hnormal := normal_spell path
    rw [h] at hnormal
    exact ⟨hnormal, eq_root_of_spell_eq h⟩
  · rintro ⟨hnormal, htrailing⟩
    by_cases hnil : path = []
    · rw [hnil]
      rfl
    by_cases hroot : path = ['/']
    · rw [hroot]
      rfl
    have hjoin : Text.join ['/'] (Text.split ['/'] path).reverse.reverse = path := by
      rw [List.reverse_reverse, Text.join_split (List.cons_ne_nil _ _)]
    have hwhole : ∀ s ∈ (Text.split ['/'] path).reverse, '/' ∉ s :=
      fun s hs => Text.not_mem_of_mem_split '/' (List.mem_reverse.1 hs)
    have hnone : (Text.split ['/'] path).reverse ≠ [] :=
      mt List.reverse_eq_nil_iff.1 (Text.split_ne_nil _ _)
    have hone : (Text.split ['/'] path).reverse ≠ [[]] := by
      intro hone
      rw [hone] at hjoin
      exact hnil hjoin.symm
    have hlast : (Text.split ['/'] path).reverse.head? ≠ some [] := by
      intro hempty
      have hends := (getLast?_join_reverse hwhole).2 ⟨hempty, hone⟩
      rw [hjoin] at hends
      exact hroot (htrailing hends)
    have hleft := hnormal.finished.leftOf_join hwhole hnone hone
    rw [hjoin, dropTrailing_of_head? hlast] at hleft
    rw [spell_of_kept (by rwa [hleft, hjoin]), hleft, hjoin]

end Path

open ModuleLoader.Path in
/-- Every canonical spelling is normal, so that a rooted one has a `..` at its end only, and the
paths that are spelled canonically are the normal ones that do not end in a separator, and the
root. -/
theorem canonical_normal (path : String) :
    ∃ spelling, Policy.standard.canonical path = .ok spelling ∧
      Normal (Text.split ['/'] spelling.toList) ∧
      (Policy.standard.isRooted spelling → parent ∉ (Text.split ['/'] spelling.toList).dropLast) ∧
      (spelling = path ↔ Normal (Text.split ['/'] path.toList) ∧
        (path.toList.getLast? = some '/' → path = "/")) := by
  have hspell : Policy.standard.canonical path = .ok (String.ofList (spell path.toList)) :=
    Policy.standard_canonical path
  have hnormal := normal_spell path.toList
  refine ⟨_, hspell, ?_, fun hrooted => ?_, ?_⟩
  · rwa [String.toList_ofList]
  · rw [Policy.standard_isRooted, String.toList_ofList, beq_iff_eq] at hrooted
    rw [String.toList_ofList]
    refine hnormal.parent_not_mem ?_
    obtain ⟨behind, hbehind⟩ := List.head?_eq_some_iff.1 hrooted
    rw [hbehind, Text.split_cons, if_pos rfl]
    rfl
  · have hslash : path = "/" ↔ path.toList = ['/'] := String.toList_inj.symm
    rw [hslash, ← spell_eq_iff, ← String.toList_inj, String.toList_ofList]

end ModuleLoader
