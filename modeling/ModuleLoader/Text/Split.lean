/-!
# Splitting and joining

A text is cut at every occurrence of a separator, taken from the left, and the pieces are put
together again with the separator between them.

* `splitAfter`, `split` : the pieces; `split_ne_nil`: there is always one;
* `join` : the pieces with the separator between them;
* `lastIndex?` : where the last separator begins;
* `occursIn` : a text occurs somewhere in another one;
* `cut` : the text before the first separator and the text after it;
* `join_split`, `not_mem_of_mem_split` : the pieces put together are the text, and none of them
  holds a separator of one character;
* `split_append_cons`, `split_append` : a text is cut at each separator by itself, and nowhere else;
* `split_join` : pieces without separators come back when what they make is cut;
* `mem_join`, `mem_join_of_mem` : the characters of what pieces make;
* `lastIndex?_of_not_mem`, `lastIndex?_append` : where the last separator of one character begins.
-/

namespace ModuleLoader.Text

/-- The pieces of a text of which the first `skip` characters still belong to a separator. -/
def splitAfter (separator : List Char) : (skip : Nat) → List Char → List (List Char)
  | _, [] => [[]]
  | skip + 1, _ :: rest => splitAfter separator skip rest
  | 0, c :: rest =>
    if separator.isPrefixOf (c :: rest) then
      [] :: splitAfter separator (separator.length - 1) rest
    else (splitAfter separator 0 rest).modifyHead (c :: ·)

/-- The pieces of a text between the occurrences of the separator. -/
def split (separator text : List Char) : List (List Char) := splitAfter separator 0 text

/-- The pieces with the separator between them. -/
def join (separator : List Char) (pieces : List (List Char)) : List Char :=
  separator.intercalate pieces

/-- The index at which the last occurrence of the separator begins. The empty separator occurs
last at the end. -/
def lastIndex? (separator : List Char) : List Char → Option Nat
  | [] => if separator.isEmpty then some 0 else none
  | c :: rest =>
    match lastIndex? separator rest with
    | some index => some (index + 1)
    | none => if separator.isPrefixOf (c :: rest) then some 0 else none

def occursIn (part : List Char) : List Char → Bool
  | [] => part.isEmpty
  | c :: rest => part.isPrefixOf (c :: rest) || occursIn part rest

/-- The text before the first separator, and the text after it. -/
def cut (separator : List Char) : List Char → List Char × List Char
  | [] => ([], [])
  | c :: rest =>
    if separator.isPrefixOf (c :: rest) then ([], (c :: rest).drop separator.length)
    else
      let (before, after) := cut separator rest
      (c :: before, after)

theorem splitAfter_ne_nil (separator : List Char) :
    ∀ (skip : Nat) (text : List Char), splitAfter separator skip text ≠ []
  | _, [] => by simp [splitAfter]
  | skip + 1, _ :: rest => by simpa [splitAfter] using splitAfter_ne_nil separator skip rest
  | 0, c :: rest => by
    have := splitAfter_ne_nil separator 0 rest
    unfold splitAfter
    split
    · simp
    · cases h : splitAfter separator 0 rest <;> simp_all

theorem split_ne_nil (separator text : List Char) : split separator text ≠ [] :=
  splitAfter_ne_nil separator 0 text

@[simp] theorem split_nil (separator : List Char) : split separator [] = [[]] := rfl

/-- A separator of one character cuts where it stands and nowhere else. -/
theorem split_cons (s c : Char) (rest : List Char) :
    split [s] (c :: rest) =
      if s = c then [] :: split [s] rest else (split [s] rest).modifyHead (c :: ·) := by
  simp [split, splitAfter]

theorem join_cons {separator piece : List Char} {pieces : List (List Char)} (h : pieces ≠ []) :
    join separator (piece :: pieces) = piece ++ separator ++ join separator pieces := by
  cases pieces with
  | nil => exact absurd rfl h
  | cons next rest => simp [join, List.intercalate_cons_cons]

theorem join_modifyHead_cons (separator : List Char) (c : Char) {pieces : List (List Char)}
    (h : pieces ≠ []) :
    join separator (pieces.modifyHead (c :: ·)) = c :: join separator pieces := by
  cases pieces with
  | nil => exact absurd rfl h
  | cons piece rest =>
    cases rest with
    | nil => simp [join]
    | cons next rest => simp [join, List.intercalate_cons_cons]

theorem join_splitAfter {separator : List Char} (hs : separator ≠ []) :
    ∀ (skip : Nat) (text : List Char),
      join separator (splitAfter separator skip text) = text.drop skip
  | _, [] => by simp [splitAfter, join]
  | skip + 1, _ :: rest => by simpa [splitAfter] using join_splitAfter hs skip rest
  | 0, c :: rest => by
    unfold splitAfter
    split
    · rename_i hp
      have hp := List.isPrefixOf_iff_prefix.1 hp
      rw [join_cons (splitAfter_ne_nil _ _ _), join_splitAfter hs]
      obtain ⟨tail, ht⟩ := hp
      obtain ⟨first, more, rfl⟩ := List.exists_cons_of_ne_nil hs
      simp only [List.cons_append, List.cons.injEq] at ht
      obtain ⟨rfl, rfl⟩ := ht
      simp
    · rw [join_modifyHead_cons _ _ (splitAfter_ne_nil _ _ _), join_splitAfter hs]
      simp

/-- The pieces with the separator put back between them are the text. -/
theorem join_split {separator : List Char} (hs : separator ≠ []) (text : List Char) :
    join separator (split separator text) = text :=
  join_splitAfter hs 0 text

theorem not_mem_of_mem_split (s : Char) {text piece : List Char} (h : piece ∈ split [s] text) :
    s ∉ piece := by
  induction text generalizing piece with
  | nil => simp_all
  | cons c rest ih =>
    rw [split_cons] at h
    split at h
    · rcases List.mem_cons.1 h with rfl | h
      · simp
      · exact ih h
    · rename_i hne
      cases hr : split [s] rest with
      | nil => exact absurd hr (split_ne_nil _ _)
      | cons first more =>
        rw [hr, List.modifyHead_cons] at h
        rcases List.mem_cons.1 h with rfl | h
        · simp [hne, ih (hr ▸ List.mem_cons_self)]
        · exact ih (hr ▸ List.mem_cons_of_mem _ h)

/-- A text is cut at each separator by itself. -/
theorem split_append_cons (s : Char) (text rest : List Char) :
    split [s] (text ++ s :: rest) = split [s] text ++ split [s] rest := by
  induction text with
  | nil => rw [List.nil_append, split_cons, if_pos rfl, split_nil, List.singleton_append]
  | cons c text ih =>
      rw [List.cons_append, split_cons, split_cons, ih]
      split
      · rfl
      · obtain ⟨piece, pieces, h⟩ := List.exists_cons_of_ne_nil (split_ne_nil [s] text)
        rw [h, List.cons_append, List.modifyHead_cons, List.modifyHead_cons, List.cons_append]

theorem split_of_not_mem (s : Char) {text : List Char} (h : s ∉ text) :
    split [s] text = [text] := by
  induction text with
  | nil => rfl
  | cons c rest ih =>
      rw [List.mem_cons, not_or] at h
      rw [split_cons, if_neg h.1, ih h.2, List.modifyHead_cons]

/-- Pieces without separators come back when what they make is cut. -/
theorem split_join (s : Char) {pieces : List (List Char)} (hne : pieces ≠ [])
    (h : ∀ piece ∈ pieces, s ∉ piece) : split [s] (join [s] pieces) = pieces := by
  induction pieces with
  | nil => exact absurd rfl hne
  | cons piece rest ih =>
      have hpiece := h piece List.mem_cons_self
      cases rest with
      | nil =>
          rw [join, List.intercalate_singleton]
          exact split_of_not_mem s hpiece
      | cons next more =>
          rw [join_cons (List.cons_ne_nil _ _), List.append_assoc, List.singleton_append,
            split_append_cons, split_of_not_mem s hpiece, List.singleton_append,
            ih (List.cons_ne_nil _ _) (fun p hp => h p (List.mem_cons_of_mem _ hp))]

theorem join_append (separator : List Char) {pieces others : List (List Char)} (hp : pieces ≠ [])
    (ho : others ≠ []) :
    join separator (pieces ++ others) =
      join separator pieces ++ separator ++ join separator others := by
  induction pieces with
  | nil => exact absurd rfl hp
  | cons piece rest ih =>
      cases rest with
      | nil =>
          rw [List.singleton_append, join_cons ho]
          simp [join]
      | cons next more =>
          rw [List.cons_append, join_cons (by simp), ih (List.cons_ne_nil _ _),
            join_cons (List.cons_ne_nil _ _)]
          simp only [List.append_assoc]

theorem join_append_head (separator front piece : List Char) (pieces : List (List Char)) :
    join separator ((front ++ piece) :: pieces) = front ++ join separator (piece :: pieces) := by
  cases pieces with
  | nil => simp [join]
  | cons next more =>
      rw [join_cons (List.cons_ne_nil _ _), join_cons (List.cons_ne_nil _ _)]
      simp only [List.append_assoc]

/-- Without a separator between two texts, the last piece of the first and the first piece of the
second are one. -/
theorem split_append (s : Char) {text rest : List Char} {pieces others : List (List Char)}
    {last first : List Char} (htext : split [s] text = pieces ++ [last])
    (hrest : split [s] rest = first :: others) :
    split [s] (text ++ rest) = pieces ++ (last ++ first) :: others := by
  have hs : [s] ≠ [] := List.cons_ne_nil s []
  have hjoin : text ++ rest = join [s] (pieces ++ (last ++ first) :: others) := by
    rw [← join_split hs text, ← join_split hs rest, htext, hrest]
    cases pieces with
    | nil =>
        rw [List.nil_append, List.nil_append, join_append_head, join, List.intercalate_singleton]
    | cons piece pieces =>
        have hlast : join [s] [last] = last := List.intercalate_singleton
        rw [join_append [s] (List.cons_ne_nil _ _) (List.cons_ne_nil _ _),
          join_append [s] (List.cons_ne_nil _ _) (List.cons_ne_nil _ _), join_append_head, hlast]
        simp only [List.append_assoc]
  have hpiece {t piece : List Char} (h : piece ∈ split [s] t) : s ∉ piece :=
    not_mem_of_mem_split s h
  rw [hjoin]
  refine split_join s (by simp) (fun piece hmem => ?_)
  rcases List.mem_append.1 hmem with hmem | hmem
  · exact hpiece (htext ▸ List.mem_append_left [last] hmem)
  · rcases List.mem_cons.1 hmem with rfl | hmem
    · have hlast := hpiece (htext ▸ List.mem_append_right pieces List.mem_cons_self)
      have hfirst := hpiece (hrest ▸ List.mem_cons_self)
      simp [hlast, hfirst]
    · exact hpiece (hrest ▸ List.mem_cons_of_mem first hmem)

theorem mem_join {s c : Char} {pieces : List (List Char)} (h : c ∈ join [s] pieces) :
    c = s ∨ ∃ piece ∈ pieces, c ∈ piece := by
  induction pieces with
  | nil => cases h
  | cons piece rest ih =>
      cases rest with
      | nil =>
          rw [join, List.intercalate_singleton] at h
          exact Or.inr ⟨piece, List.mem_cons_self, h⟩
      | cons next more =>
          rw [join_cons (List.cons_ne_nil _ _), List.append_assoc, List.mem_append,
            List.singleton_append, List.mem_cons] at h
          rcases h with h | rfl | h
          · exact Or.inr ⟨piece, List.mem_cons_self, h⟩
          · exact Or.inl rfl
          · rcases ih h with rfl | ⟨p, hp, hc⟩
            · exact Or.inl rfl
            · exact Or.inr ⟨p, List.mem_cons_of_mem _ hp, hc⟩

theorem mem_join_of_mem {s c : Char} {piece : List Char} {pieces : List (List Char)}
    (hp : piece ∈ pieces) (hc : c ∈ piece) : c ∈ join [s] pieces := by
  induction pieces with
  | nil => cases hp
  | cons first rest ih =>
      cases rest with
      | nil =>
          rw [List.mem_singleton] at hp
          rw [join, List.intercalate_singleton, ← hp]
          exact hc
      | cons next more =>
          rw [join_cons (List.cons_ne_nil _ _), List.append_assoc, List.mem_append]
          rcases List.mem_cons.1 hp with rfl | hp
          · exact Or.inl hc
          · exact Or.inr (List.mem_cons_of_mem _ (ih hp))

theorem lastIndex?_of_not_mem {s : Char} {text : List Char} (h : s ∉ text) :
    lastIndex? [s] text = none := by
  induction text with
  | nil => rfl
  | cons c text ih =>
    rw [List.mem_cons, not_or] at h
    have hc : ¬ List.isPrefixOf [s] (c :: text) := by simpa [List.isPrefixOf] using h.1
    rw [lastIndex?, ih h.2]
    exact if_neg hc

theorem lastIndex?_append {s : Char} (before : List Char) {after : List Char} (h : s ∉ after) :
    lastIndex? [s] (before ++ s :: after) = some before.length := by
  induction before with
  | nil =>
    rw [List.nil_append, lastIndex?, lastIndex?_of_not_mem h]
    simp
  | cons c before ih =>
    rw [List.cons_append, lastIndex?, ih]
    rfl

end ModuleLoader.Text
