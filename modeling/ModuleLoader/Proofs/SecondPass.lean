import ModuleLoader.Proofs.Rooting

/-!
# Canonical spellings spelled again

What is left of a path is read again as it is. Only one trailing separator is dropped at a time, so
that a path that ends in several keeps losing one.

* `Finished`, `Finished.collapse_reverse` : what is left of a path, and that reading it again
  changes nothing;
* `EndsDoubled`, `endsDoubled_iff` : the paths that end in two separators, if what takes itself
  back is left out;
* `spell`, `spell_spell` : the canonical spelling of a canonical spelling;
* `canonical_canonical` : the second spelling is the first one, or it has one separator less.
-/

namespace ModuleLoader

namespace Path
variable {rooted : Bool} {kept below : List Segment} {s : Segment}

/-! ## Reading again what is left -/

theorem Settled.of_cons (h : Settled rooted (s :: below)) (hne : below ≠ []) :
    s ≠ current ∧ Settled rooted below := by
  cases h with
  | root => exact absurd rfl hne
  | upward h =>
    cases h with
    | here => exact absurd rfl hne
    | above h => exact ⟨by decide, .upward h⟩
  | down hs h => exact ⟨(descends_iff.1 hs).1, h⟩

/-- The segment on top is read again as it is. -/
theorem Settled.advance_top (h : Settled rooted (s :: below)) (hne : below ≠ []) :
    advance rooted below s = s :: below := by
  cases h with
  | root => exact absurd rfl hne
  | upward h =>
    cases h with
    | here => exact absurd rfl hne
    | above h =>
      cases h with
      | nothing => exact absurd rfl hne
      | here => rfl
      | above => exact Kept.ascend_above _
  | down hs => exact advance_of_descends hs

theorem Settled.foldl_reverse (h : Settled rooted kept) {first : Segment} {rest : List Segment}
    (hsplit : kept.reverse = first :: rest) : rest.foldl (advance rooted) [first] = kept := by
  induction kept generalizing rest with
  | nil => cases hsplit
  | cons s below ih =>
    rw [List.reverse_cons] at hsplit
    by_cases hne : below = []
    · subst hne
      obtain ⟨rfl, rfl⟩ := List.cons.inj hsplit
      rfl
    · obtain ⟨t, more, ht⟩ := List.exists_cons_of_ne_nil (mt List.reverse_eq_nil_iff.1 hne)
      rw [ht, List.cons_append, List.cons.injEq] at hsplit
      obtain ⟨rfl, rfl⟩ := hsplit
      rw [List.foldl_append, ih (h.of_cons hne).2 ht]
      exact h.advance_top hne

theorem settled_of_descends {top : List Segment} (h : ∀ t ∈ top, descends t) :
    Settled true (top ++ [[]]) := by
  induction top with
  | nil => exact .root
  | cons t top ih =>
    exact .down (h t List.mem_cons_self) (ih (fun u hu => h u (List.mem_cons_of_mem t hu)))

/-- What is left of a relative path may begin with an empty segment; it is then read again as a
rooted path. -/
theorem Settled.reroot (h : Settled rooted kept) :
    Settled (kept.getLast? == some []) kept := by
  by_cases hbottom : kept.getLast? = some []
  · obtain ⟨top, rfl, htop⟩ := h.descends_of_getLast? hbottom
    rw [beq_iff_eq.2 hbottom]
    exact settled_of_descends htop
  · rw [beq_eq_false_iff_ne.2 hbottom]
    cases rooted with
    | true => exact absurd (h.getLast?_of_rooted rfl) hbottom
    | false => exact h

/-- Whatever lies on top, unless it is a `.`, below it everything is settled. -/
def Finished (rooted : Bool) (kept : List Segment) : Prop :=
  ∀ s below, kept = s :: below → below ≠ [] → s ≠ current ∧ Settled rooted below

theorem Settled.finished (h : Settled rooted kept) : Finished rooted kept := by
  rintro s below rfl hne
  exact h.of_cons hne

theorem Settled.finish (h : Settled rooted kept) (s : Segment) : Finished rooted (finish kept s) := by
  unfold Path.finish
  split
  · exact h.finished
  · rename_i hs
    rintro t below heq -
    obtain ⟨rfl, rfl⟩ := List.cons.inj heq
    exact ⟨hs, h⟩

theorem finished_collapse {first : Segment} (hfirst : rooted → first = []) (rest : List Segment) :
    Finished rooted (collapse rooted [first] rest) := by
  rcases List.eq_nil_or_concat rest with rfl | ⟨v, last, rfl⟩
  · exact (settled_first hfirst).finished
  · rw [List.concat_eq_append, collapse_concat]
    exact ((settled_first hfirst).foldl v).finish last

theorem Finished.dropTrailing (h : Finished rooted kept) : Finished rooted (dropTrailing kept) := by
  unfold Path.dropTrailing
  split
  · rename_i below
    cases below with
    | nil => exact h
    | cons t below => exact (h _ _ rfl (List.cons_ne_nil _ _)).2.finished
  · exact h

/-- What is left of a path is left again when it is read a second time. -/
theorem Finished.collapse_reverse (h : Finished rooted kept) {first : Segment}
    {rest : List Segment} (hsplit : kept.reverse = first :: rest) :
    collapse (kept.getLast? == some []) [first] rest = kept := by
  cases kept with
  | nil => cases hsplit
  | cons s below =>
    rw [List.reverse_cons] at hsplit
    by_cases hne : below = []
    · subst hne
      obtain ⟨rfl, rfl⟩ := List.cons.inj hsplit
      rfl
    · obtain ⟨hs, hbelow⟩ := h s below rfl hne
      obtain ⟨t, more, ht⟩ := List.exists_cons_of_ne_nil (mt List.reverse_eq_nil_iff.1 hne)
      rw [ht, List.cons_append, List.cons.injEq] at hsplit
      obtain ⟨rfl, rfl⟩ := hsplit
      rw [List.getLast?_cons_of_ne_nil hne, collapse_concat, hbelow.reroot.foldl_reverse ht]
      exact if_neg hs

/-! ## Two separators at the end -/

/-- Two separators stand at the end, if what takes itself back is left out. -/
def EndsDoubled (segments : List Segment) : Prop :=
  ∃ a b c, segments = a ++ [] :: (b ++ [] :: c) ∧ Cancels b ∧ Cancels c ∧
    c.getLast? ≠ some parent

/-- Where an empty segment above others comes from. -/
theorem exists_empty {v : List Segment} {first : Segment} (hne : kept ≠ [])
    (h : v.foldl (advance rooted) [first] = [] :: kept) :
    ∃ a b, v = a ++ [] :: b ∧ a.foldl (advance rooted) [first] = kept ∧ Cancels b := by
  rcases exists_origin (fun _ => hne) (by decide) h with hthere | ⟨a, b, hv, ha, -, hb⟩
  · obtain ⟨-, hnone⟩ := List.cons.inj (hthere.eq_of_length_le (by simp))
    exact absurd hnone hne
  · exact ⟨a, b, hv, ha, hb⟩

theorem endsDoubled_of_collapse {first : Segment} {rest : List Segment} (hne : kept ≠ [])
    (h : collapse rooted [first] rest = [] :: [] :: kept) : EndsDoubled (first :: rest) := by
  rcases List.eq_nil_or_concat rest with rfl | ⟨v, last, rfl⟩
  · cases h
  · rw [List.concat_eq_append] at h ⊢
    rw [collapse_concat, finish] at h
    split at h
    · -- The two empty segments stand before the last segment, which is a `.`.
      rename_i hlast
      obtain ⟨a, b, rfl, ha, hb⟩ := exists_empty (List.cons_ne_nil _ _) h
      obtain ⟨a, c, rfl, -, hc⟩ := exists_empty hne ha
      refine ⟨first :: a, c, b ++ [last], by simp, hc, ?_, ?_⟩
      · rw [hlast]
        exact hb.append cancels_current
      · rw [List.getLast?_concat, hlast]
        decide
    · obtain ⟨rfl, hv⟩ := List.cons.inj h
      obtain ⟨a, b, rfl, -, hb⟩ := exists_empty hne hv
      exact ⟨first :: a, b, [], by simp, hb, cancels_nil, by decide⟩

theorem collapse_of_endsDoubled {first : Segment} {rest : List Segment}
    (h : EndsDoubled (first :: rest)) :
    ∃ kept, collapse rooted [first] rest = [] :: [] :: kept := by
  obtain ⟨a, b, c, hsplit, hb, hc, hlast⟩ := h
  -- The first of the two may be the very first segment.
  obtain ⟨front, kept, hrest, hfront⟩ : ∃ front kept, rest = front ++ (b ++ [] :: c) ∧
      front.foldl (advance rooted) [first] = [] :: kept := by
    cases a with
    | nil =>
      obtain ⟨rfl, rfl⟩ := List.cons.inj hsplit
      exact ⟨[], [], rfl, rfl⟩
    | cons d a =>
      obtain ⟨rfl, rfl⟩ := List.cons.inj hsplit
      refine ⟨a ++ [[]], a.foldl (advance rooted) [first], by simp, ?_⟩
      rw [List.foldl_append, List.foldl_cons, advance_empty, List.foldl_nil]
  have hmiddle : (front ++ b).foldl (advance rooted) [first] = [] :: kept := by
    rw [List.foldl_append, hfront]
    exact foldl_of_cancels (fun _ => List.cons_ne_nil _ _) hb
  refine ⟨kept, ?_⟩
  rcases List.eq_nil_or_concat c with rfl | ⟨c, last, rfl⟩
  · rw [hrest, ← List.append_assoc, collapse_concat, hmiddle]
    rfl
  · rw [List.concat_eq_append] at hrest hc hlast
    rw [List.getLast?_concat, Ne, Option.some.injEq] at hlast
    obtain rfl := hc.getLast_eq hlast
    have hback : (c ++ [current]).foldl (advance rooted) ([] :: [] :: kept) = [] :: [] :: kept :=
      foldl_of_cancels (fun _ => List.cons_ne_nil _ _) hc
    rw [List.foldl_append] at hback
    have hparts : rest = (front ++ b ++ [] :: c) ++ [current] := by simp [hrest]
    rw [hparts, collapse_concat, List.foldl_append, hmiddle, List.foldl_cons, advance_empty]
    exact hback

/-- What is left of a path ends in two empty segments exactly if the path ends in two
separators, but for a path of which nothing else is left. -/
theorem endsDoubled_iff {first : Segment} {rest : List Segment}
    (h : dropTrailing (collapse rooted [first] rest) ≠ [[]]) :
    EndsDoubled (first :: rest) ↔
      ∃ kept, kept ≠ [] ∧ dropTrailing (collapse rooted [first] rest) = [] :: kept := by
  constructor
  · intro hdoubled
    obtain ⟨kept, hkept⟩ := @collapse_of_endsDoubled rooted first rest hdoubled
    rw [hkept] at h ⊢
    refine ⟨kept, ?_, rfl⟩
    rintro rfl
    exact h rfl
  · rintro ⟨kept, hne, hkept⟩
    unfold dropTrailing at hkept
    split at hkept
    · rename_i below heq
      split at hkept
      · obtain ⟨-, rfl⟩ := List.cons.inj hkept
        exact absurd rfl hne
      · rw [hkept] at heq
        exact endsDoubled_of_collapse hne heq
    · rename_i hnone
      exact absurd hkept (hnone kept)

/-! ## Spelling again -/

/-- The canonical spelling of a text under the standard policy. -/
def spell (path : List Char) : List Char :=
  canonicalText ['/'] (path.head? == some '/') path

/-- What is left of a text under the standard policy, last first. -/
def leftOf (path : List Char) : List Segment :=
  keptSegments (path.head? == some '/') (Text.split ['/'] path)

variable {path : List Char}

theorem finished_leftOf (path : List Char) : Finished (path.head? == some '/') (leftOf path) := by
  obtain ⟨first, rest, hsplit⟩ := List.exists_cons_of_ne_nil (Text.split_ne_nil ['/'] path)
  rw [leftOf, hsplit]
  refine (finished_collapse (fun hrooted => ?_) rest).dropTrailing
  obtain ⟨behind, rfl⟩ := List.head?_eq_some_iff.1 (beq_iff_eq.1 hrooted)
  rw [Text.split_cons, if_pos rfl] at hsplit
  exact (List.cons.inj hsplit).1.symm

theorem not_mem_of_mem_leftOf {piece : Segment} (hp : piece ∈ leftOf path) : '/' ∉ piece := by
  have hsub : (leftOf path).reverse.Sublist (Text.split ['/'] path) := keptSegments_sublist _ _
  exact Text.not_mem_of_mem_split '/' (hsub.subset (List.mem_reverse.2 hp))

/-- Of what is left, put together again, the same segments are left, but for one trailing
separator. -/
theorem Finished.leftOf_join (h : Finished rooted kept) (hwhole : ∀ piece ∈ kept, '/' ∉ piece)
    (hnone : kept ≠ []) (hone : kept ≠ [[]]) :
    leftOf (Text.join ['/'] kept.reverse) = Path.dropTrailing kept := by
  have hpieces : ∀ piece ∈ kept.reverse, '/' ∉ piece :=
    fun piece hp => hwhole piece (List.mem_reverse.1 hp)
  have hreverse : kept.reverse ≠ [] := mt List.reverse_eq_nil_iff.1 hnone
  have hhead : ((Text.join ['/'] kept.reverse).head? == some '/') =
      (kept.getLast? == some []) := by
    rw [Bool.eq_iff_iff, beq_iff_eq, beq_iff_eq, head?_join_iff hpieces, List.head?_reverse]
    refine and_iff_left (fun hsingle => hone ?_)
    rw [← List.reverse_reverse kept, hsingle]
    rfl
  obtain ⟨first, rest, hsplit⟩ := List.exists_cons_of_ne_nil hreverse
  rw [leftOf, hhead, Text.split_join '/' hreverse hpieces, hsplit, keptSegments,
    h.collapse_reverse hsplit]

theorem spell_of_nothing (h : Text.join ['/'] (leftOf path).reverse = []) :
    path = [] ∨ spell path = ['/'] ∨ spell path = current := by
  by_cases hne : path = []
  · exact Or.inl hne
  · right
    rw [spell, canonicalText_of_empty _ hne h]
    split
    · exact Or.inl rfl
    · exact Or.inr rfl

section Kept
variable (h : Text.join ['/'] (leftOf path).reverse ≠ [])
include h

theorem spell_of_kept : spell path = Text.join ['/'] (leftOf path).reverse :=
  canonicalText_of_join path _ h

theorem leftOf_several : leftOf path ≠ [] ∧ leftOf path ≠ [[]] := by
  refine ⟨fun hnone => h ?_, fun hone => h ?_⟩
  · rw [hnone]
    rfl
  · rw [hone]
    rfl

theorem split_spell : Text.split ['/'] (spell path) = (leftOf path).reverse := by
  rw [spell_of_kept h, Text.split_join '/' (mt List.reverse_eq_nil_iff.1 (leftOf_several h).1)]
  exact fun piece hp => not_mem_of_mem_leftOf (List.mem_reverse.1 hp)

/-- Of a canonical spelling the same segments are left, but for one trailing separator. -/
theorem leftOf_spell : leftOf (spell path) = dropTrailing (leftOf path) := by
  obtain ⟨hnone, hone⟩ := leftOf_several h
  rw [spell_of_kept h]
  exact (finished_leftOf path).leftOf_join (fun _ => not_mem_of_mem_leftOf) hnone hone

end Kept

/-- An empty segment at the end is what the second spelling drops, with its separator. -/
theorem spell_of_trailing (h : leftOf path = [] :: kept) (hne : kept ≠ [])
    (hroot : kept ≠ [[]]) : spell path = spell (spell path) ++ ['/'] := by
  have hreverse : kept.reverse ≠ [] := mt List.reverse_eq_nil_iff.1 hne
  have hjoin : Text.join ['/'] (leftOf path).reverse = Text.join ['/'] kept.reverse ++ ['/'] := by
    rw [h, join_reverse_cons _ hne]
  have hkept : Text.join ['/'] (leftOf path).reverse ≠ [] := by
    rw [hjoin]
    simp
  have hagain : leftOf (spell path) = kept := by
    rw [leftOf_spell hkept, h, dropTrailing, if_neg (by simpa using hne)]
  have hmore : Text.join ['/'] (leftOf (spell path)).reverse ≠ [] := by
    rw [hagain, Ne, join_eq_nil, not_or]
    refine ⟨hreverse, fun hone => hroot ?_⟩
    rw [← List.reverse_reverse kept, hone]
    rfl
  have hspell := spell_of_kept hmore
  rw [hagain] at hspell
  rw [hspell, spell_of_kept hkept, hjoin]

theorem spell_spell_of_not_trailing (hkept : Text.join ['/'] (leftOf path).reverse ≠ [])
    (h : ¬ ∃ kept, kept ≠ [] ∧ leftOf path = [] :: kept) : spell (spell path) = spell path := by
  have hsame : dropTrailing (leftOf path) = leftOf path := by
    unfold dropTrailing
    split
    · rename_i below heq
      split
      · rename_i hempty
        rw [heq, List.isEmpty_iff.1 hempty]
      · rename_i hbelow
        exact absurd ⟨below, by simpa using hbelow, heq⟩ h
    · rfl
  have hagain : leftOf (spell path) = leftOf path := by rw [leftOf_spell hkept, hsame]
  have hspell := spell_of_kept (hagain.symm ▸ hkept)
  rw [hspell, hagain, spell_of_kept hkept]

theorem not_endsDoubled_singleton (s : Segment) : ¬ EndsDoubled [s] := by
  rintro ⟨a, b, c, hsplit, -⟩
  have hlength := congrArg List.length hsplit
  simp only [List.length_append, List.length_cons, List.length_nil] at hlength
  omega

/-- The second spelling is the first one unless the path ends in two separators, and then it has
one separator less. -/
theorem spell_spell (path : List Char) :
    (spell (spell path) = spell path ↔
      ¬ (EndsDoubled (Text.split ['/'] path) ∧ spell path ≠ current ∧ spell path ≠ ['/'])) ∧
      (spell (spell path) ≠ spell path → spell path = spell (spell path) ++ ['/']) := by
  by_cases hempty : Text.join ['/'] (leftOf path).reverse = []
  · rcases spell_of_nothing hempty with rfl | hspell | hspell
    · exact ⟨iff_of_true rfl (fun h => not_endsDoubled_singleton [] h.1), fun h => absurd rfl h⟩
    · rw [hspell]
      exact ⟨iff_of_true rfl (fun h => h.2.2 rfl), fun h => absurd rfl h⟩
    · rw [hspell]
      exact ⟨iff_of_true rfl (fun h => h.2.1 rfl), fun h => absurd rfl h⟩
  · have hdoubled : EndsDoubled (Text.split ['/'] path) ↔
        ∃ kept, kept ≠ [] ∧ leftOf path = [] :: kept := by
      obtain ⟨first, rest, hsplit⟩ := List.exists_cons_of_ne_nil (Text.split_ne_nil ['/'] path)
      have hseveral := (leftOf_several hempty).2
      rw [leftOf, hsplit] at hseveral ⊢
      exact endsDoubled_iff hseveral
    by_cases htrailing : ∃ kept, kept ≠ [] ∧ leftOf path = [] :: kept
    · obtain ⟨kept, hne, hkept⟩ := htrailing
      by_cases hroot : kept = [[]]
      · have hspell : spell path = ['/'] := by
          rw [spell_of_kept hempty, hkept, hroot]
          rfl
        rw [hspell]
        exact ⟨iff_of_true rfl (fun h => h.2.2 rfl), fun h => absurd rfl h⟩
      · have hspell := spell_of_trailing hkept hne hroot
        refine ⟨iff_of_false ?_ ?_, fun _ => hspell⟩
        · intro hsame
          rw [hsame] at hspell
          simp at hspell
        · refine fun h => h ⟨hdoubled.2 ⟨kept, hne, hkept⟩, fun hcurrent => ?_, fun hslash => ?_⟩
          · rw [hcurrent] at hspell
            exact absurd hspell (by decide)
          · rw [hslash] at hspell
            exact absurd hspell (by decide)
    · have hsame := spell_spell_of_not_trailing hempty htrailing
      exact ⟨iff_of_true hsame (fun h => htrailing (hdoubled.1 h.1)), fun h => absurd hsame h⟩

end Path

/-- A canonical spelling is its own canonical spelling, unless the path ends in two separators:
what takes itself back is left out, and more than the directory or the root is left. The second
spelling then has one separator less. -/
theorem canonical_canonical (path : String) :
    ∃ once twice, Path.Policy.standard.canonical path = .ok once ∧
      Path.Policy.standard.canonical once = .ok twice ∧
      (twice = once ↔ ¬ (Path.EndsDoubled (Text.split ['/'] path.toList) ∧ once ≠ "." ∧
        once ≠ "/")) ∧
      (twice ≠ once → once = twice ++ "/") := by
  have hspell (path : String) : Path.Policy.standard.canonical path =
      .ok (String.ofList (Path.spell path.toList)) := Path.Policy.standard_canonical path
  refine ⟨_, _, hspell path, hspell _, ?_⟩
  have hdot (text : List Char) : String.ofList text = "." ↔ text = Path.current := by
    rw [show "." = String.ofList Path.current from rfl, String.ofList_inj]
  have hslash (text : List Char) : String.ofList text = "/" ↔ text = ['/'] := by
    rw [show "/" = String.ofList ['/'] from rfl, String.ofList_inj]
  rw [String.toList_ofList, Ne, Ne, Ne, hdot, hslash, String.ofList_inj]
  obtain ⟨hsame, hless⟩ := Path.spell_spell path.toList
  refine ⟨hsame, fun hdiffers => ?_⟩
  rw [show "/" = String.ofList ['/'] from rfl, ← String.ofList_append, ← hless hdiffers]

/-- A path that ends in two separators keeps one of them, which a second pass drops. -/
theorem canonical_twice_differs : ¬ ∀ path once twice,
    Path.Policy.standard.canonical path = .ok once →
      Path.Policy.standard.canonical once = .ok twice → twice = once := by
  intro h
  exact absurd (h "/a/b//" "/a/b/" "/a/b" (by decide +kernel) (by decide +kernel)) (by decide)

end ModuleLoader
