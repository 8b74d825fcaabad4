import Mathlib.Data.List.TakeWhile
import ModuleLoader.Script.Tokens

/-!
# Lexemes in other surroundings

A lexeme is the longest one at the head of a text. It stays the same where less text follows it,
and where text of another kind follows it.

* `Local` : what is taken off the head of a text is also taken off less text that still holds it;
  `local_nameOf`, `local_numberOf` : names and numbers are;
* `Stops` : a text that goes on with neither a name nor a number;
* `lexeme?_of_append` : the lexeme where less text follows;
* `lexeme?_append_of_stops` : the lexeme where a text that stops it follows.
-/

namespace ModuleLoader.Script

/-- What is taken off the head of a text is also taken off less text that still holds it. -/
def Local (read : List Char → List Char) : Prop :=
  ∀ s t, read (s ++ t) <+: s → read s = read (s ++ t)

theorem local_takeWhile (p : Char → Bool) : Local (List.takeWhile p) := by
  intro s t h
  rw [List.takeWhile_append] at h ⊢
  split at h
  · rename_i hlength
    rw [if_pos hlength]
    have hall : s.takeWhile p = s := (List.takeWhile_prefix p).eq_of_length hlength
    have hnil : t.takeWhile p = [] := by
      have hle := h.length_le
      rw [List.length_append] at hle
      exact List.length_eq_zero_iff.1 (by omega)
    rw [hall, hnil, List.append_nil]
  · rename_i hlength
    rw [if_neg hlength]

theorem Local.append {first next : List Char → List Char} (hfirst : Local first)
    (hnext : Local next) :
    Local (fun text => first text ++ next (text.drop (first text).length)) := by
  intro s t h
  dsimp only at h ⊢
  have hprefix : first (s ++ t) <+: s := (List.prefix_append _ _).trans h
  rw [hfirst s t hprefix]
  obtain ⟨r, hr⟩ := hprefix
  generalize first (s ++ t) = u at h hr ⊢
  subst hr
  rw [List.append_assoc, List.drop_left] at h ⊢
  rw [hnext r t ((List.prefix_append_right_inj u).1 h), List.drop_left]

/-! ## Numbers -/

theorem local_signOf : Local signOf := by
  intro s t h
  cases s with
  | nil => exact (List.prefix_nil.1 h).symm
  | cons c s => rfl

theorem local_signedDigitsOf : Local signedDigitsOf :=
  local_signOf.append (local_takeWhile Char.isDigit)

theorem signedDigitsOf_eq_signOf_iff (text : List Char) :
    signedDigitsOf text = signOf text ↔ digitsOf (text.drop (signOf text).length) = [] := by
  simp [signedDigitsOf]

/-- Digits that are missing from a text are missing from less text. -/
theorem signedDigitsOf_of_append {s t : List Char}
    (h : signedDigitsOf (s ++ t) = signOf (s ++ t)) : signedDigitsOf s = signOf s := by
  cases s with
  | nil => rfl
  | cons c s =>
    have hsign : signOf (c :: s ++ t) = signOf (c :: s) := rfl
    have hle : (signOf (c :: s)).length ≤ (c :: s).length := (signOf_isPrefix _).length_le
    rw [signedDigitsOf_eq_signOf_iff] at h ⊢
    rw [hsign, List.drop_append_of_le_length hle] at h
    have hlocal := local_takeWhile Char.isDigit ((c :: s).drop (signOf (c :: s)).length) t
    unfold digitsOf at h ⊢
    rw [h] at hlocal
    exact hlocal List.nil_prefix

theorem local_exponentOf : Local exponentOf := by
  intro s t h
  cases s with
  | nil => exact (List.prefix_nil.1 h).symm
  | cons mark s =>
    simp only [List.cons_append, exponentOf] at h ⊢
    split at h
    · rename_i hmark
      have hprefix : signedDigitsOf (s ++ t) <+: s := (List.cons_prefix_cons.1 h).2
      have hdigits := local_signedDigitsOf s t hprefix
      have hsign := local_signOf s t (List.IsPrefix.trans (List.prefix_append _ _) hprefix)
      rw [if_pos hmark, hdigits, hsign, if_pos hmark]
    · rename_i hmark
      rw [if_neg hmark, if_neg]
      exact fun hshort => hmark ⟨hshort.1, fun heq => hshort.2 (signedDigitsOf_of_append heq)⟩

theorem local_fractionOf : Local fractionOf := by
  intro s t h
  cases s with
  | nil => exact (List.prefix_nil.1 h).symm
  | cons c s =>
    by_cases hc : c = '.'
    · subst hc
      have hdigits := local_takeWhile Char.isDigit s t (List.cons_prefix_cons.1 h).2
      exact congrArg ('.' :: ·) hdigits
    · have hnone (rest : List Char) : fractionOf (c :: rest) = [] := by
        unfold fractionOf
        split
        · rename_i heq
          exact absurd (List.cons.inj heq).1 hc
        · rfl
      rw [List.cons_append, hnone, hnone]

theorem local_mantissaOf : Local mantissaOf := by
  intro s t h
  have hwhole := (local_takeWhile Char.isDigit).append local_fractionOf s t
  dsimp only at hwhole
  unfold mantissaOf digitsOf at h ⊢
  dsimp only at h ⊢
  split at h
  · rename_i hpoint
    rw [if_pos hpoint]
    cases s with
    | nil => rfl
    | cons c s =>
      -- a lone point is a prefix of every text that begins like it
      have hhead : ['.'] <+: c :: s := by
        have hcut := append_isPrefix (List.takeWhile_prefix Char.isDigit (l := c :: s ++ t))
          (fractionOf_isPrefix _)
        rw [hpoint, List.cons_append, List.cons_prefix_cons] at hcut
        exact List.cons_prefix_cons.2 ⟨hcut.1, List.nil_prefix⟩
      rw [hwhole (hpoint ▸ hhead), if_pos hpoint]
  · rename_i hpoint
    rw [if_neg hpoint, hwhole h, if_neg hpoint]

theorem local_unsignedNumberOf : Local unsignedNumberOf := by
  intro s t h
  have hwhole := local_mantissaOf.append local_exponentOf s t
  dsimp only at hwhole
  unfold unsignedNumberOf at h ⊢
  dsimp only at h ⊢
  split at h
  · rename_i hnil
    have hmantissa := local_mantissaOf s t (hnil ▸ List.nil_prefix)
    rw [if_pos hnil, if_pos (hmantissa.trans hnil)]
  · rename_i hne
    have hmantissa := local_mantissaOf s t ((List.prefix_append _ _).trans h)
    rw [if_neg hne, if_neg (hmantissa ▸ hne), hwhole h]

theorem local_numberOf : Local numberOf := by
  intro s t h
  have hwhole := local_signOf.append local_unsignedNumberOf s t
  dsimp only at hwhole
  unfold numberOf at h ⊢
  dsimp only at h ⊢
  split at h
  · rename_i hnil
    rw [if_pos hnil]
    cases s with
    | nil => rfl
    | cons c s =>
      have hsign : signOf (c :: s ++ t) = signOf (c :: s) := rfl
      have hle : (signOf (c :: s)).length ≤ (c :: s).length := (signOf_isPrefix _).length_le
      rw [hsign, List.drop_append_of_le_length hle] at hnil
      rw [if_pos ((local_unsignedNumberOf _ t (hnil ▸ List.nil_prefix)).trans hnil)]
  · rename_i hne
    rw [if_neg hne]
    have heq := hwhole h
    have hsign := local_signOf s t ((List.prefix_append _ _).trans h)
    rw [hsign] at heq ⊢
    rw [if_neg]
    · exact heq
    · exact (List.append_cancel_left heq) ▸ hne

def isNumberPart (c : Char) : Bool :=
  c.isDigit || c == '.' || c == 'e' || c == 'E' || c == '+' || c == '-'

theorem isNumberPart_of_isDigit {c : Char} (h : c.isDigit) : isNumberPart c := by
  simp [isNumberPart, h]

theorem isNumberPart_digitsOf {text : List Char} {c : Char} (h : c ∈ digitsOf text) :
    isNumberPart c :=
  isNumberPart_of_isDigit (List.mem_takeWhile_imp h)

theorem isNumberPart_signOf {text : List Char} {c : Char} (h : c ∈ signOf text) :
    isNumberPart c := by
  unfold signOf at h
  split at h
  · split at h
    · rename_i hsign
      rw [List.mem_singleton.1 h]
      rcases hsign with rfl | rfl <;> rfl
    · cases h
  · cases h

theorem isNumberPart_exponentOf {text : List Char} {c : Char} (h : c ∈ exponentOf text) :
    isNumberPart c := by
  unfold exponentOf at h
  split at h
  · split at h
    · rename_i hmark
      rcases List.mem_cons.1 h with rfl | h
      · rcases hmark.1 with rfl | rfl <;> rfl
      · rcases List.mem_append.1 h with h | h
        · exact isNumberPart_signOf h
        · exact isNumberPart_digitsOf h
    · cases h
  · cases h

theorem isNumberPart_mantissaOf {text : List Char} {c : Char} (h : c ∈ mantissaOf text) :
    isNumberPart c := by
  unfold mantissaOf at h
  dsimp only at h
  split at h
  · cases h
  · rcases List.mem_append.1 h with h | h
    · exact isNumberPart_digitsOf h
    · unfold fractionOf at h
      split at h
      · rcases List.mem_cons.1 h with rfl | h
        · rfl
        · exact isNumberPart_digitsOf h
      · cases h

theorem isNumberPart_numberOf {text : List Char} {c : Char} (h : c ∈ numberOf text) :
    isNumberPart c := by
  unfold numberOf at h
  dsimp only at h
  split at h
  · cases h
  · rcases List.mem_append.1 h with h | h
    · exact isNumberPart_signOf h
    · unfold unsignedNumberOf at h
      dsimp only at h
      split at h
      · cases h
      · rcases List.mem_append.1 h with h | h
        · exact isNumberPart_mantissaOf h
        · exact isNumberPart_exponentOf h

/-! ## Names -/

theorem local_nameOf : Local nameOf := by
  intro s t h
  cases s with
  | nil => exact (List.prefix_nil.1 h).symm
  | cons c s =>
    simp only [List.cons_append, nameOf] at h ⊢
    split at h
    · rename_i hc
      rw [if_pos hc, if_pos hc, local_takeWhile isNamePart s t (List.cons_prefix_cons.1 h).2]
    · rename_i hc
      rw [if_neg hc, if_neg hc]

theorem isNamePart_of_isNameStart {c : Char} (h : isNameStart c) : isNamePart c := by
  simp only [isNameStart, Bool.or_eq_true] at h
  simp only [isNamePart, Char.isAlphanum, Bool.or_eq_true]
  exact h.imp_left Or.inl

theorem isNamePart_nameOf {text : List Char} {c : Char} (h : c ∈ nameOf text) :
    isNamePart c := by
  unfold nameOf at h
  split at h
  · split at h
    · rename_i hc
      rcases List.mem_cons.1 h with rfl | h
      · exact isNamePart_of_isNameStart hc
      · exact List.mem_takeWhile_imp h
    · cases h
  · cases h

/-! ## Where a name or a number stops -/

/-- The text goes on with neither a name nor a number. -/
def Stops (text : List Char) : Prop :=
  ∀ c ∈ text.head?, isNamePart c = false ∧ isNumberPart c = false

theorem stops_cons {c : Char} {text : List Char}
    (h : isNamePart c = false ∧ isNumberPart c = false) : Stops (c :: text) := by
  intro d hd
  obtain rfl := Option.some.inj hd
  exact h

/-- What is taken off the head of a text ends before a character of another kind. -/
theorem prefix_of_stop {p : Char → Bool} {u s t : List Char} (htaken : u <+: s ++ t)
    (hall : ∀ c ∈ u, p c) (hstop : ∀ c ∈ t.head?, p c = false) : u <+: s := by
  rcases Nat.le_total u.length s.length with hle | hle
  · exact List.prefix_of_prefix_length_le htaken (List.prefix_append s t) hle
  · obtain ⟨v, rfl⟩ := List.prefix_of_prefix_length_le (List.prefix_append s t) htaken hle
    have hv : v <+: t := (List.prefix_append_right_inj s).1 htaken
    cases v with
    | nil => exact (List.append_nil s).symm ▸ List.prefix_refl s
    | cons c v =>
      obtain ⟨w, rfl⟩ := hv
      have htrue := hall c (List.mem_append_right s List.mem_cons_self)
      rw [hstop c rfl] at htrue
      cases htrue

theorem nameOf_append {s t : List Char} (h : Stops t) : nameOf (s ++ t) = nameOf s :=
  (local_nameOf s t (prefix_of_stop (nameOf_isPrefix _) (fun _ => isNamePart_nameOf)
    (fun c hc => (h c hc).1))).symm

theorem numberOf_append {s t : List Char} (h : Stops t) : numberOf (s ++ t) = numberOf s :=
  (local_numberOf s t (prefix_of_stop (numberOf_isPrefix _) (fun _ => isNumberPart_numberOf)
    (fun c hc => (h c hc).2))).symm

def beginsWord (c : Char) : Bool := isNameStart c || isNumberPart c

theorem beginsWord_of_wordOrNumber? {afterQuote : Bool} {c : Char} {text : List Char}
    {found : Lexeme × List Char} (h : wordOrNumber? afterQuote (c :: text) = some found) :
    beginsWord c := by
  unfold wordOrNumber? at h
  split at h
  · rename_i hname
    rw [nameOf] at hname
    split at hname
    · rename_i hc
      rw [beginsWord, hc, Bool.true_or]
    · exact absurd rfl hname
  · split at h
    · rename_i hnumber
      obtain ⟨d, number, heq⟩ := List.exists_cons_of_ne_nil hnumber
      have hprefix := numberOf_isPrefix (c :: text)
      rw [heq, List.cons_prefix_cons] at hprefix
      have hpart : isNumberPart d := isNumberPart_numberOf (heq ▸ List.mem_cons_self)
      rw [← hprefix.1, beginsWord, hpart, Bool.or_true]
    · cases h

theorem lexeme?_of_beginsWord {afterQuote : Bool} {c : Char} (text : List Char)
    (h : beginsWord c) : lexeme? afterQuote (c :: text) = wordOrNumber? afterQuote (c :: text) := by
  unfold lexeme?
  split
  case h_10 => rfl
  all_goals
    rename_i heq
    rw [(List.cons.inj heq).1] at h
    exact absurd h (by decide)

theorem wordOrNumber?_append_of_eq {afterQuote : Bool} {s t : List Char}
    (hname : nameOf (s ++ t) = nameOf s) (hnumber : numberOf (s ++ t) = numberOf s) :
    wordOrNumber? afterQuote (s ++ t) =
      (wordOrNumber? afterQuote s).map (fun found => (found.1, found.2 ++ t)) := by
  unfold wordOrNumber?
  rw [hname, hnumber, List.drop_append_of_le_length (nameOf_isPrefix s).length_le,
    List.drop_append_of_le_length (numberOf_isPrefix s).length_le]
  split
  · rfl
  · split <;> rfl

/-! ## Lexemes -/

/-- The lexeme is read whatever follows it. -/
def Lexeme.IsClosed (lexeme : Lexeme) : Prop :=
  ∀ afterQuote rest, lexeme? afterQuote (lexeme.text ++ rest) = some (lexeme, rest)

theorem afterString?_body {text body tail : List Char} (h : afterString? text = some (body, tail))
    (rest : List Char) : afterString? (body ++ '"' :: rest) = some (body, rest) := by
  fun_induction afterString? text generalizing body tail with
  | case1 => cases h
  | case2 =>
    cases h
    rfl
  | case3 => cases h
  | case4 c more hc ih =>
    obtain ⟨found, hfound, heq⟩ := Option.map_eq_some_iff.1 h
    cases heq
    simp [afterString?, hc, ih hfound]
  | case5 => cases h
  | case6 c more hquote hescape hc ih =>
    obtain ⟨found, hfound, heq⟩ := Option.map_eq_some_iff.1 h
    cases heq
    have hplain : c ≠ '\\' := by
      rintro rfl
      cases more with
      | nil => cases hfound
      | cons d more => exact hescape d more rfl rfl
    simp [afterString?, hplain, hc, ih hfound]

/-- A lexeme is read whatever follows it, or it is a name or a number. -/
theorem isClosed_or_wordOrNumber? {afterQuote : Bool} {text rest : List Char} {lexeme : Lexeme}
    (h : lexeme? afterQuote text = some (lexeme, rest)) :
    lexeme.IsClosed ∨ wordOrNumber? afterQuote text = some (lexeme, rest) := by
  unfold lexeme? at h
  split at h
  case h_1 tail =>
    obtain ⟨⟨body, behind⟩, hbody, heq⟩ := Option.map_eq_some_iff.1 h
    cases heq
    refine Or.inl (fun afterQuote rest => ?_)
    simp [Lexeme.text, Spelling.text, lexeme?, afterString?_body hbody rest]
  case h_10 => exact Or.inr h
  all_goals
    cases h
    exact Or.inl (fun _ _ => rfl)

theorem wordOrNumber?_of_append {afterQuote : Bool} {s t r : List Char} {lexeme : Lexeme}
    (h : wordOrNumber? afterQuote (s ++ t) = some (lexeme, r ++ t)) :
    wordOrNumber? afterQuote s = some (lexeme, r) := by
  have hs : s = lexeme.text ++ r := by
    have heq := (wordOrNumber?_append h).1
    rw [← List.append_assoc] at heq
    exact List.append_cancel_right heq
  have hprefix : lexeme.text <+: s := ⟨r, hs.symm⟩
  have hdrop : s.drop lexeme.text.length = r := by
    rw [hs, List.drop_left]
  unfold wordOrNumber? at h ⊢
  split at h
  · rename_i hname
    obtain ⟨rfl, -⟩ := Prod.mk.inj (Option.some.inj h)
    rw [wordLexeme_text] at hprefix hdrop
    rw [local_nameOf s t hprefix, if_pos hname, hdrop]
  · rename_i hname
    have hnone : nameOf s = nameOf (s ++ t) := by
      refine local_nameOf s t ?_
      rw [not_not.1 hname]
      exact List.nil_prefix
    rw [hnone, if_neg hname]
    split at h
    · rename_i hnumber
      obtain ⟨rfl, -⟩ := Prod.mk.inj (Option.some.inj h)
      rw [Lexeme.text, Spelling.text] at hprefix hdrop
      rw [local_numberOf s t hprefix, if_pos hnumber, hdrop]
    · cases h

/-- A lexeme is read where less text follows it. -/
theorem lexeme?_of_append {afterQuote : Bool} {s t r : List Char} {lexeme : Lexeme}
    (h : lexeme? afterQuote (s ++ t) = some (lexeme, r ++ t)) :
    lexeme? afterQuote s = some (lexeme, r) := by
  obtain ⟨heq, hne⟩ := lexeme?_append h
  have hs : s = lexeme.text ++ r := by
    rw [← List.append_assoc] at heq
    exact List.append_cancel_right heq
  rcases isClosed_or_wordOrNumber? h with hclosed | hword
  · rw [hs]
    exact hclosed afterQuote r
  · obtain ⟨c, text, htext⟩ := List.exists_cons_of_ne_nil hne
    rw [htext, List.cons_append] at hs
    subst hs
    have hread := wordOrNumber?_of_append hword
    rw [lexeme?_of_beginsWord _ (beginsWord_of_wordOrNumber? hread), hread]

/-- A lexeme is read where a text follows that goes on with no name or number. -/
theorem lexeme?_append_of_stops {afterQuote : Bool} {s t r : List Char} {lexeme : Lexeme}
    (h : lexeme? afterQuote s = some (lexeme, r)) (hstops : Stops t) :
    lexeme? afterQuote (s ++ t) = some (lexeme, r ++ t) := by
  rcases isClosed_or_wordOrNumber? h with hclosed | hword
  · rw [(lexeme?_append h).1, List.append_assoc]
    exact hclosed afterQuote (r ++ t)
  · have hmore : wordOrNumber? afterQuote (s ++ t) = some (lexeme, r ++ t) := by
      rw [wordOrNumber?_append_of_eq (nameOf_append hstops) (numberOf_append hstops), hword]
      rfl
    cases s with
    | nil => cases hword
    | cons c s =>
      rw [List.cons_append, lexeme?_of_beginsWord _ (beginsWord_of_wordOrNumber? hword)]
      exact hmore

end ModuleLoader.Script
