import ModuleLoader.Proofs.Cancellation
import ModuleLoader.Proofs.Expansion

/-!
# Expanded paths are canonical

A path expanded behind a plain directory is spelled by the names on the way from the root to what
it names there, and by nothing else. Only behind the root itself a second slash stands in front, as
long as no `..` has led above the root.

* `Place.spelling`, `Path.isPlain_spelling` : the plain spelling of a place;
* `Path.Overshoots` : a `..` leads above the root;
* `Path.Leads`, `Path.collapse_names`, `Path.collapse_doubled` : the segments kept above a root,
  and above a doubled one;
* `Path.canonicalText_below`, `Path.canonicalText_root` : how they are spelled;
* `Path.IsClean`, `Path.placeBehind`, `Path.Doubled` : the remainders considered, the place that one
  names behind a directory, and when the second slash stays;
* `System.Behind` : the paths that are expanded behind a directory;
* `expand_spelling` : what they are expanded to;
* `expand_root_doubled` : two spellings of one place, of which one is expanded behind two slashes.
-/

namespace ModuleLoader

open ModuleLoader.Path (Segment)

/-! ## Places -/

def Place.spelling (place : Place) : String := String.ofList ('/' :: Text.join ['/'] place)

namespace Path
variable {place : Place} {s : Segment} {segments kept : List Segment}

theorem IsName.descends {name : Segment} (h : IsName name) : descends name :=
  descends_iff.2 ⟨h.proper.2, h.down⟩

theorem names_step (hplace : ∀ name ∈ place, IsName name) (hwhole : '/' ∉ s) :
    ∀ name ∈ Place.step place s, IsName name := by
  unfold Place.step
  split
  · exact hplace
  · rename_i hidle
    split
    · exact fun name hname => hplace name (List.dropLast_subset place hname)
    · rename_i hdown
      intro name hname
      rcases List.mem_append.1 hname with hname | hname
      · exact hplace name hname
      · rw [List.mem_singleton.1 hname]
        exact ⟨not_or.1 hidle, hdown, hwhole⟩

/-- Names have a plain spelling, which names the place that they lead to. -/
theorem isPlain_spelling (hplace : ∀ name ∈ place, IsName name) :
    IsPlain place.spelling ∧ Place.resolve [] place.spelling.toList = place := by
  have htext : place.spelling.toList = '/' :: Text.join ['/'] place := String.toList_ofList
  refine ⟨⟨place, htext, hplace⟩, ?_⟩
  rw [htext, resolve_plain hplace]

/-- A `..` somewhere among the segments leads above the root. -/
def Overshoots (place : Place) (segments : List Segment) : Prop :=
  ∃ before after, segments = before ++ parent :: after ∧ before.foldl Place.step place = []

theorem not_overshoots_nil : ¬ Overshoots place [] := by
  rintro ⟨before, after, h, -⟩
  simp at h

theorem overshoots_cons : Overshoots place (s :: segments) ↔
    s = parent ∧ place = [] ∨ Overshoots (Place.step place s) segments := by
  constructor
  · rintro ⟨before, after, hsplit, hroot⟩
    cases before with
    | nil => exact Or.inl ⟨(List.cons.inj hsplit).1, hroot⟩
    | cons t before =>
      obtain ⟨rfl, hrest⟩ := List.cons.inj hsplit
      exact Or.inr ⟨before, after, hrest, hroot⟩
  · rintro (⟨rfl, rfl⟩ | ⟨before, after, rfl, hroot⟩)
    · exact ⟨[], segments, rfl, rfl⟩
    · exact ⟨s :: before, after, rfl, hroot⟩

/-! ## The segments kept behind a directory -/

/-- A segment is read like one that is not the last, unless it is a `..` at the end. -/
theorem collapse_cons_advance (rooted : Bool) (kept : List Segment)
    (h : s = parent → segments ≠ []) :
    collapse rooted kept (s :: segments) = collapse rooted (advance rooted kept s) segments := by
  rw [collapse, advance]
  split
  · rfl
  · by_cases hparent : s = parent
    · rw [if_pos ⟨hparent, h hparent⟩, if_pos hparent]
    · rw [if_neg (fun h => hparent h.1), if_neg hparent]

/-- A segment leads from the names kept above the root to those of the next place. -/
theorem advance_names {roots : List Segment} (hroots : roots ≠ [])
    (hplace : ∀ name ∈ place, IsName name) (hs : s ≠ []) (habove : s = parent → place ≠ []) :
    advance true (place.reverse ++ roots) s = (Place.step place s).reverse ++ roots := by
  unfold advance Place.step
  by_cases hcurrent : s = current
  · rw [if_pos hcurrent, if_pos (Or.inr hcurrent)]
  · rw [if_neg hcurrent, if_neg (not_or.2 ⟨hs, hcurrent⟩)]
    by_cases hparent : s = parent
    · rw [if_pos hparent, if_pos hparent]
      rcases List.eq_nil_or_concat place with rfl | ⟨front, name, rfl⟩
      · exact absurd rfl (habove hparent)
      · rw [List.concat_eq_append] at hplace ⊢
        have hname := (hplace name (by simp)).descends
        rw [List.dropLast_concat, List.reverse_concat, List.cons_append]
        exact ascend_of_descends hname (fun _ h => hroots (List.append_eq_nil_iff.1 h).2)
    · rw [if_neg hparent, if_neg hparent, List.reverse_concat, List.cons_append]

/-- The segments are without separators, none of them is empty, and the last is not a `..`. -/
structure Leads (segments : List Segment) : Prop where
  filled : ∀ s ∈ segments, s ≠ []
  whole : ∀ s ∈ segments, '/' ∉ s
  ends : segments.getLast? ≠ some parent

theorem Leads.of_cons (h : Leads (s :: segments)) :
    Leads segments ∧ s ≠ [] ∧ '/' ∉ s ∧ (s = parent → segments ≠ []) := by
  refine ⟨⟨fun t ht => h.filled t (List.mem_cons_of_mem s ht),
    fun t ht => h.whole t (List.mem_cons_of_mem s ht), fun hlast => ?_⟩,
    h.filled s List.mem_cons_self, h.whole s List.mem_cons_self, ?_⟩
  · have hne : segments ≠ [] := by
      rintro rfl
      cases hlast
    exact h.ends (by rw [List.getLast?_cons_of_ne_nil hne, hlast])
  · rintro rfl rfl
    exact h.ends rfl

/-- What is kept above the root are the names of the place that the segments lead to. -/
theorem collapse_names (h : Leads segments) (hplace : ∀ name ∈ place, IsName name) :
    collapse true (place.reverse ++ [[]]) segments =
      (segments.foldl Place.step place).reverse ++ [[]] := by
  induction segments generalizing place with
  | nil => rfl
  | cons s segments ih =>
    obtain ⟨hmore, hs, hwhole, hends⟩ := h.of_cons
    rw [collapse_cons_advance true _ hends, List.foldl_cons,
      ← ih hmore (names_step hplace hwhole)]
    congr 1
    by_cases habove : s = parent ∧ place = []
    · obtain ⟨rfl, rfl⟩ := habove
      rfl
    · exact advance_names (List.cons_ne_nil _ _) hplace hs (fun hs hp => habove ⟨hs, hp⟩)

/-- Above a doubled root the second slash stays until a `..` takes it back. -/
theorem collapse_doubled (h : Leads segments) (hplace : ∀ name ∈ place, IsName name) :
    ∃ k, (k = 1 ∧ Overshoots place segments ∨ k = 2 ∧ ¬ Overshoots place segments) ∧
      collapse true (place.reverse ++ [[], []]) segments =
        (segments.foldl Place.step place).reverse ++ List.replicate k [] := by
  induction segments generalizing place with
  | nil => exact ⟨2, Or.inr ⟨rfl, not_overshoots_nil⟩, rfl⟩
  | cons s segments ih =>
    obtain ⟨hmore, hs, hwhole, hends⟩ := h.of_cons
    rw [collapse_cons_advance true _ hends, List.foldl_cons, overshoots_cons]
    by_cases habove : s = parent ∧ place = []
    · refine ⟨1, Or.inl ⟨rfl, Or.inl habove⟩, ?_⟩
      obtain ⟨rfl, rfl⟩ := habove
      exact collapse_names hmore hplace
    · have hstep := advance_names (List.cons_ne_nil [] [[]]) hplace hs
        (fun hs hp => habove ⟨hs, hp⟩)
      rw [hstep]
      simpa only [habove, false_or] using ih hmore (names_step hplace hwhole)

/-! ## The spelling of what is kept -/

theorem dropTrailing_names (hplace : ∀ name ∈ place, IsName name) (hne : place ≠ [])
    (roots : List Segment) :
    dropTrailing (place.reverse ++ roots) = place.reverse ++ roots := by
  rcases List.eq_nil_or_concat place with rfl | ⟨front, name, rfl⟩
  · exact absurd rfl hne
  · rw [List.concat_eq_append] at hplace ⊢
    obtain ⟨c, rest, rfl⟩ := List.exists_cons_of_ne_nil (hplace name (by simp)).proper.1
    rw [List.reverse_concat]
    rfl

/-- Names kept above one empty segment or two are spelled behind as many slashes; the root has only
one. -/
theorem canonicalText_of_names {path : List Char} {rest : List Segment} {k : Nat}
    (hk : k = 1 ∨ k = 2) (hne : path ≠ []) (hsplit : Text.split ['/'] path = [] :: rest)
    (hplace : ∀ name ∈ place, IsName name)
    (hkept : collapse true [[]] rest = place.reverse ++ List.replicate k []) :
    canonicalText ['/'] true path =
      if place = [] then ['/'] else List.replicate k '/' ++ Text.join ['/'] place := by
  have hall : keptSegments true (Text.split ['/'] path) =
      dropTrailing (place.reverse ++ List.replicate k []) := by
    rw [hsplit, ← hkept]
    rfl
  split
  · rename_i hroot
    refine canonicalText_of_empty true hne ?_
    rw [hall, hroot]
    rcases hk with rfl | rfl <;> rfl
  · rename_i hroot
    rw [dropTrailing_names hplace hroot] at hall
    have hreverse : (keptSegments true (Text.split ['/'] path)).reverse =
        List.replicate k [] ++ place := by
      rw [hall, List.reverse_append, List.reverse_replicate, List.reverse_reverse]
    rw [← join_replicate k hroot, ← hreverse]
    refine canonicalText_of_join path true (fun hnil => ?_)
    rw [hreverse, join_replicate k hroot] at hnil
    have hk := congrArg List.length (List.append_eq_nil_iff.1 hnil).1
    rw [List.length_replicate, List.length_nil] at hk
    omega

/-! ## Behind a directory -/

/-- No segment of the path is empty, and the last one is not a `..`. -/
structure IsClean (path : String) : Prop where
  filled : ∀ s ∈ Text.split ['/'] path.toList, s ≠ []
  ends : (Text.split ['/'] path.toList).getLast? ≠ some parent

def placeBehind (directory remainder : String) : Place :=
  Place.resolve (Place.resolve [] directory.toList) remainder.toList

/-- The directory is the root, what is named behind it is not, and no `..` leads above it. -/
structure Doubled (directory remainder : String) : Prop where
  root : directory = "/"
  below : placeBehind directory remainder ≠ []
  grounded : ¬ Overshoots [] (Text.split ['/'] remainder.toList)

variable {directory remainder : String}

theorem IsClean.leads (h : IsClean remainder) : Leads (Text.split ['/'] remainder.toList) :=
  ⟨h.filled, fun _ hs => Text.not_mem_of_mem_split '/' hs, h.ends⟩

theorem IsClean.head? (h : IsClean remainder) : remainder.toList.head? ≠ some '/' := by
  intro hhead
  obtain ⟨rest, hrest⟩ := List.head?_eq_some_iff.1 hhead
  refine h.filled [] ?_ rfl
  rw [hrest, Text.split_cons, if_pos rfl]
  exact List.mem_cons_self

theorem IsClean.ne_empty (h : IsClean remainder) : remainder.toList ≠ [] := by
  intro hempty
  refine h.filled [] ?_ rfl
  rw [hempty]
  exact List.mem_cons_self

theorem placeBehind_eq {names : List Segment} (hnames : ∀ name ∈ names, IsName name)
    (hdirectory : directory.toList = '/' :: Text.join ['/'] names) (h : IsClean remainder) :
    placeBehind directory remainder =
      (Text.split ['/'] remainder.toList).foldl Place.step names := by
  rw [placeBehind, hdirectory, resolve_plain hnames, Place.resolve, if_neg h.head?]

theorem names_foldl (hplace : ∀ name ∈ place, IsName name) (hwhole : ∀ s ∈ segments, '/' ∉ s) :
    ∀ name ∈ segments.foldl Place.step place, IsName name := by
  induction segments generalizing place with
  | nil => exact hplace
  | cons s segments ih =>
    exact ih (names_step hplace (hwhole s List.mem_cons_self))
      (fun t ht => hwhole t (List.mem_cons_of_mem s ht))

section Spelled
variable {names : List Segment} {text : List Char} (hnames : ∀ name ∈ names, IsName name)
  (h : Leads (Text.split ['/'] text))

include h

theorem names_behind (hnames : ∀ name ∈ names, IsName name) :
    ∀ name ∈ (Text.split ['/'] text).foldl Place.step names, IsName name :=
  names_foldl hnames h.whole

include hnames in
/-- Behind a directory below the root there is one slash in front. -/
theorem canonicalText_below (hne : names ≠ []) :
    canonicalText ['/'] true ('/' :: Text.join ['/'] names ++ '/' :: text) =
      '/' :: Text.join ['/'] ((Text.split ['/'] text).foldl Place.step names) := by
  have hsplit : Text.split ['/'] ('/' :: Text.join ['/'] names ++ '/' :: text) =
      [] :: (names ++ Text.split ['/'] text) := by
    rw [Text.split_append_cons, Text.split_cons, if_pos rfl, split_join_names hnames, if_neg hne,
      List.cons_append]
  have hall : Leads (names ++ Text.split ['/'] text) := by
    refine ⟨fun s hs => ?_, fun s hs => ?_, ?_⟩
    · exact (List.mem_append.1 hs).elim (fun hs => (hnames s hs).proper.1) (h.filled s)
    · exact (List.mem_append.1 hs).elim (fun hs => (hnames s hs).whole) (h.whole s)
    · rw [List.getLast?_append_of_ne_nil _ (Text.split_ne_nil _ _)]
      exact h.ends
  have hfold : (names ++ Text.split ['/'] text).foldl Place.step [] =
      (Text.split ['/'] text).foldl Place.step names := by
    rw [List.foldl_append, foldl_step hnames, List.nil_append]
  have hkept := collapse_names hall (fun name hname => absurd hname List.not_mem_nil)
  rw [hfold] at hkept
  rw [canonicalText_of_names (Or.inl rfl) (by simp) hsplit (names_behind h hnames) hkept]
  split
  · rename_i hroot
    rw [hroot]
    rfl
  · rfl

/-- Behind the root there are two slashes in front, unless one of them is taken back or nothing
follows. -/
theorem canonicalText_root :
    ∃ k, (k = 1 ∧ Overshoots [] (Text.split ['/'] text) ∨
        k = 2 ∧ ¬ Overshoots [] (Text.split ['/'] text)) ∧
      canonicalText ['/'] true ('/' :: '/' :: text) =
        if (Text.split ['/'] text).foldl Place.step [] = [] then ['/']
        else
          List.replicate k '/' ++
            Text.join ['/'] ((Text.split ['/'] text).foldl Place.step []) := by
  have hsplit : Text.split ['/'] ('/' :: '/' :: text) = [] :: [] :: Text.split ['/'] text := by
    rw [Text.split_cons, if_pos rfl, Text.split_cons, if_pos rfl]
  have hnone : ∀ name ∈ ([] : Place), IsName name := fun _ hname => absurd hname List.not_mem_nil
  have hcollapse : collapse true [[]] ([] :: Text.split ['/'] text) =
      collapse true [[], []] (Text.split ['/'] text) :=
    collapse_cons_advance true [[]] (fun hs => by cases hs)
  obtain ⟨k, hk, hkept⟩ := collapse_doubled h hnone
  rw [List.reverse_nil, List.nil_append, ← hcollapse] at hkept
  exact ⟨k, hk, canonicalText_of_names (hk.imp And.left And.left) (by simp) hsplit
    (names_behind h hnone) hkept⟩

end Spelled

theorem names_placeBehind (hplain : IsPlain directory) (h : IsClean remainder) :
    ∀ name ∈ placeBehind directory remainder, IsName name := by
  obtain ⟨names, hdirectory, hnames⟩ := hplain
  rw [placeBehind_eq hnames hdirectory h]
  exact names_behind h.leads hnames

theorem place_eq_canonicalText {names : List Segment}
    (hdirectory : directory.toList = '/' :: Text.join ['/'] names) (h : IsClean remainder) :
    Path.place .standard directory remainder = .ok (String.ofList
      (canonicalText ['/'] true ('/' :: Text.join ['/'] names ++ '/' :: remainder.toList))) := by
  have hsome : ¬ remainder.isEmpty := by simpa [← String.toList_eq_nil_iff] using h.ne_empty
  have hjoin : Policy.standard.join directory remainder = directory ++ "/" ++ remainder := rfl
  rw [Path.place, if_neg hsome, hjoin, Policy.standard_canonical, toList_joined hdirectory]
  rfl

theorem eq_root_iff {names : List Segment} (hnames : ∀ name ∈ names, IsName name)
    (hdirectory : directory.toList = '/' :: Text.join ['/'] names) :
    directory = "/" ↔ names = [] := by
  rw [← String.toList_inj, hdirectory]
  constructor
  · intro hslash
    rcases join_eq_nil.1 (List.cons.inj hslash).2 with hnone | hempty
    · exact hnone
    · exact absurd rfl (hnames [] (hempty ▸ List.mem_singleton_self _)).proper.1
  · rintro rfl
    rfl

/-- A clean remainder behind a plain directory is spelled as the place that it names, but for the
second slash. -/
theorem place_spelling (hplain : IsPlain directory) (h : IsClean remainder) :
    (Doubled directory remainder → Path.place .standard directory remainder =
        .ok ("/" ++ (placeBehind directory remainder).spelling)) ∧
      (¬ Doubled directory remainder → Path.place .standard directory remainder =
        .ok (placeBehind directory remainder).spelling) := by
  obtain ⟨names, hdirectory, hnames⟩ := hplain
  have htarget := placeBehind_eq hnames hdirectory h
  have hspelling : (placeBehind directory remainder).spelling.toList =
      '/' :: Text.join ['/'] ((Text.split ['/'] remainder.toList).foldl Place.step names) := by
    rw [Place.spelling, String.toList_ofList, htarget]
  have hplace := place_eq_canonicalText hdirectory h
  have hroot := eq_root_iff hnames hdirectory
  refine ⟨fun hdoubled => ?_, fun hdoubled => ?_⟩
  · obtain rfl := hroot.1 hdoubled.root
    obtain ⟨k, hk, htext⟩ := canonicalText_root h.leads
    have hbelow := htarget ▸ hdoubled.below
    refine hplace.trans (congrArg Except.ok (String.toList_inj.1 ?_))
    rw [String.toList_ofList, String.toList_append, hspelling]
    rcases hk with ⟨-, habove⟩ | ⟨rfl, -⟩
    · exact absurd habove hdoubled.grounded
    · exact htext.trans (if_neg hbelow)
  · refine hplace.trans (congrArg Except.ok (String.toList_inj.1 ?_))
    rw [String.toList_ofList, hspelling]
    by_cases hnone : names = []
    · subst hnone
      obtain ⟨k, hk, htext⟩ := canonicalText_root h.leads
      refine htext.trans ?_
      split
      · rename_i hempty
        rw [hempty]
        rfl
      · rename_i hbelow
        rcases hk with ⟨rfl, -⟩ | ⟨-, hgrounded⟩
        · rfl
        · exact absurd ⟨hroot.2 rfl, htarget ▸ hbelow, hgrounded⟩ hdoubled
    · exact canonicalText_below hnames h.leads hnone

end Path

/-- A path that is expanded behind a directory, which is the working directory or a home, with what
follows the directory. -/
inductive System.Behind (system : System) : (path directory remainder : String) → Prop where
  | working {path directory : String} (working : system.workingDirectory = some directory)
      (relative : path.toList.head? ≠ some '/') (noTilde : path.toList.head? ≠ some '~') :
      Behind system path directory path
  | home {login remainder directory : String} (whole : '/' ∉ login.toList)
      (knows : system.users.Knows login.toList directory) :
      Behind system ("~" ++ login ++ "/" ++ remainder) directory remainder

theorem System.Behind.expand {system : System} {path directory remainder : String}
    (h : system.Behind path directory remainder) :
    system.expand path = Path.place .standard directory remainder := by
  cases h with
  | working working relative noTilde => exact expand_relative working relative noTilde
  | home whole knows => exact expand_tilde knows whole

/-- Behind a plain directory every spelling of a place is expanded to the plain spelling of it, or,
where the root keeps its doubled slash, to that with a second slash in front. Two spellings of one
place are expanded alike if both or none of them are doubled. -/
theorem expand_spelling {system : System} {path directory remainder : String}
    (behind : system.Behind path directory remainder) (plain : Path.IsPlain directory)
    (clean : Path.IsClean remainder) :
    ∃ spelling, Path.IsPlain spelling ∧
      Place.resolve [] spelling.toList = Path.placeBehind directory remainder ∧
      (¬ Path.Doubled directory remainder → system.expand path = .ok spelling) ∧
      (Path.Doubled directory remainder → system.expand path = .ok ("/" ++ spelling)) ∧
      ∀ (system' : System) (path' directory' remainder' : String),
        system'.Behind path' directory' remainder' → Path.IsPlain directory' →
        Path.IsClean remainder' →
        Path.placeBehind directory' remainder' = Path.placeBehind directory remainder →
        (Path.Doubled directory' remainder' ↔ Path.Doubled directory remainder) →
          system'.expand path' = system.expand path := by
  obtain ⟨hplain, hplace⟩ := Path.isPlain_spelling (Path.names_placeBehind plain clean)
  obtain ⟨hdoubled, hsingle⟩ := Path.place_spelling plain clean
  refine ⟨_, hplain, hplace, ?_, ?_, ?_⟩
  · rw [behind.expand]
    exact hsingle
  · rw [behind.expand]
    exact hdoubled
  · intro system' path' directory' remainder' behind' plain' clean' hsame hiff
    obtain ⟨hdoubled', hsingle'⟩ := Path.place_spelling plain' clean'
    rw [hsame, hiff] at hdoubled' hsingle'
    rw [behind'.expand, behind.expand]
    by_cases h : Path.Doubled directory remainder
    · rw [hdoubled' h, hdoubled h]
    · rw [hsingle' h, hsingle h]

/-- A path that leads above the root and one behind a home directory, both to the same place. -/
theorem expand_spelling_roundabout :
    let system : System :=
      { System.bare (some "/a") with users := ⟨1000, some [⟨"me", 1000, "/b"⟩]⟩ }
    (∃ spelling, Path.IsPlain spelling ∧ system.expand "../../b/c" = .ok spelling) ∧
      system.expand "~me/c" = system.expand "../../b/c" := by
  intro system
  have plain : Path.IsPlain "/a" ∧ Path.IsPlain "/b" := by
    refine ⟨⟨["a".toList], by decide, ?_⟩, ⟨["b".toList], by decide, ?_⟩⟩
    · exact List.forall_mem_singleton.2 ⟨by decide, by decide, by decide⟩
    · exact List.forall_mem_singleton.2 ⟨by decide, by decide, by decide⟩
  have behind : system.Behind "../../b/c" "/a" "../../b/c" :=
    .working rfl (by decide) (by decide)
  have home : system.Behind ("~" ++ "me" ++ "/" ++ "c") "/b" "c" :=
    .home (by decide) ⟨⟨_, rfl, by decide⟩, by decide⟩
  have single : ¬ Path.Doubled "/a" "../../b/c" ∧ ¬ Path.Doubled "/b" "c" :=
    ⟨fun h => absurd h.root (by decide), fun h => absurd h.root (by decide)⟩
  obtain ⟨spelling, hplain, -, hspelling, -, hsame⟩ :=
    expand_spelling behind plain.1 ⟨by decide, by decide⟩
  refine ⟨⟨spelling, hplain, hspelling single.1⟩, ?_⟩
  exact hsame system _ "/b" "c" home plain.2 ⟨by decide, by decide⟩ (by decide)
    (iff_of_false single.2 single.1)

/-- From the root, a name is expanded behind two slashes; the same name behind a `..` is not. -/
theorem expand_root_doubled :
    let system := System.bare (some "/")
    Path.IsPlain "/" ∧ Path.IsClean "a" ∧ Path.IsClean "../a" ∧
      Path.placeBehind "/" "a" = Path.placeBehind "/" "../a" ∧
        system.expand "a" = .ok "//a" ∧ ¬ Path.IsPlain "//a" ∧
          system.expand "../a" = .ok "/a" := by
  refine ⟨⟨[], by decide, by simp⟩, ⟨by decide, by decide⟩, ⟨by decide, by decide⟩, by decide,
    by decide, ?_, by decide⟩
  rintro ⟨names, htext, hnames⟩
  have hpieces : ∀ name ∈ names, name ≠ [] ∧ '/' ∉ name :=
    fun name hname => ⟨(hnames name hname).proper.1, (hnames name hname).whole⟩
  have hhead := head?_join hpieces
  rw [← (List.cons.inj htext).2] at hhead
  exact hhead rfl

end ModuleLoader
