import ModuleLoader.Decimal.Shortest
import ModuleLoader.Proofs.Lexing
import ModuleLoader.Script.Literal

/-!
# How values are written down

* `escaped` : a character between quotes; `Literal.spelling` : how a value is written;
* `Literal.Writable` : the values that are read back;
* `afterString?_escaped`, `unescape_escaped` : the text between quotes ends where it should, and it
  stands for what was written;
* `lexeme?_spelling`, `evaluate_spelling` : what is written is one lexeme and has the value.
-/

namespace ModuleLoader.Script

/-- The character as it is written between quotes: as it is, but for a backslash, a quote, the two
line ends and NUL. -/
def escaped (c : Char) : List Char :=
  if c = '\\' ∨ c = '"' then ['\\', c]
  else if c = '\n' then ['\\', 'n']
  else if c = '\r' then ['\\', 'r']
  else if c = '\x00' then ['\\', 'x', '0', '0']
  else [c]

def Literal.spelling : Literal → Spelling
  | .nil => .keyword .nil
  | .bool true => .keyword .true
  | .bool false => .keyword .false
  | .int n => .number n.repr.toList
  | .float x => .number x.text.toList
  | .string s => .string (s.toList.flatMap escaped)
  | .broken b => .string ((b.points.map CodePoint.shown).flatMap escaped)

/-- The values that are read back: all but floating-point numbers, integers of too many digits and
strings that are no text. -/
def Literal.Writable : Literal → Prop
  | .nil | .bool _ | .string _ => True
  | .int n => (Nat.toDigits 10 n.natAbs).length ≤ digitLimit
  | .float _ | .broken _ => False

/-! ## Strings -/

/-- A character that has no need of a backslash. -/
def IsPlain (c : Char) : Prop := c ≠ '\\' ∧ c ≠ '"' ∧ c ≠ '\n' ∧ c ≠ '\r' ∧ c ≠ '\x00'

/-- A character is written behind a backslash, it is NUL, or it stands for itself. -/
theorem escaped_cases (c : Char) :
    (∃ d, escaped c = ['\\', d] ∧ simpleEscape? d = some c ∧ d ≠ '\n' ∧ d ≠ '\r' ∧ d ≠ '\x00') ∨
    c = '\x00' ∨ escaped c = [c] ∧ IsPlain c := by
  unfold escaped
  split_ifs with hsame hfeed hreturn hnul
  · rcases hsame with rfl | rfl
    · exact Or.inl ⟨'\\', by decide⟩
    · exact Or.inl ⟨'"', by decide⟩
  · subst hfeed
    exact Or.inl ⟨'n', by decide⟩
  · subst hreturn
    exact Or.inl ⟨'r', by decide⟩
  · exact Or.inr (Or.inl hnul)
  · rw [not_or] at hsame
    exact Or.inr (Or.inr ⟨rfl, hsame.1, hsame.2, hfeed, hreturn, hnul⟩)

theorem afterString?_plain {c : Char} (h : IsPlain c) (text : List Char) :
    afterString? (c :: text) =
      (afterString? text).map (fun found => (c :: found.1, found.2)) := by
  obtain ⟨hbackslash, hquote, hfeed, -⟩ := h
  rw [afterString?]
  · rw [if_neg hfeed]
  · exact hquote
  · exact fun _ _ heq => absurd heq hbackslash

/-- The text between quotes ends at the quote behind it. -/
theorem afterString?_escaped (text rest : List Char) :
    afterString? (text.flatMap escaped ++ '"' :: rest) = some (text.flatMap escaped, rest) := by
  induction text with
  | nil => rfl
  | cons c text ih =>
    rw [List.flatMap_cons, List.append_assoc]
    rcases escaped_cases c with ⟨d, hescaped, -, hfeed, -⟩ | rfl | ⟨hescaped, hplain⟩
    · simp [hescaped, afterString?, hfeed, ih]
    · simp [escaped, afterString?, ih]
    · simp [hescaped, afterString?_plain hplain, ih]

section
variable (names : CharacterNames)

theorem unescape_plain {c : Char} (h : IsPlain c) (offset : Nat) (text : List Char) :
    unescape names offset 0 (c :: text) =
      (.character c :: ·) <$> unescape names (offset + escapedWidth [c]) 0 text := by
  rw [unescape]
  · exact fun heq _ => absurd heq h.1
  · exact fun _ _ heq => absurd heq h.1

theorem unescape_nul (offset : Nat) (text : List Char) :
    unescape names offset 0 ('\\' :: 'x' :: '0' :: '0' :: text) =
      (.character '\x00' :: ·) <$> unescape names (offset + 4) 0 text := by
  have hsimple : simpleEscape? 'x' = none := by decide
  have hhex : hexEscape? 'x' = some (2, .truncatedX) := by decide
  have hnul : hexCodePoint offset 2 .truncatedX ('0' :: '0' :: text) =
      .ok (.character '\x00') := rfl
  simp only [unescape, hsimple, hhex, hnul]
  rfl

/-- The text between quotes stands for what was written. -/
theorem unescape_escaped (offset : Nat) (text : List Char) :
    unescape names offset 0 (text.flatMap escaped) = .ok (text.map .character) := by
  induction text generalizing offset with
  | nil => rfl
  | cons c text ih =>
    rw [List.flatMap_cons]
    rcases escaped_cases c with ⟨d, hescaped, hsimple, -⟩ | rfl | ⟨hescaped, hplain⟩
    · simp [hescaped, unescape, hsimple, ih]
    · simp [escaped, unescape_nul, ih]
    · simp [hescaped, unescape_plain names hplain, ih]

end

theorem lastLine_escaped (line : Nat) (text : List Char) :
    lastLine line (text.flatMap escaped) = .ok line := by
  induction text with
  | nil => rfl
  | cons c text ih =>
    rw [List.flatMap_cons]
    rcases escaped_cases c with ⟨d, hescaped, -, -, hreturn, -⟩ | rfl | ⟨hescaped, hplain⟩
    · simp [hescaped, lastLine, hreturn, ih]
    · simp [escaped, lastLine, ih]
    · obtain ⟨hbackslash, -, -, hreturn, -⟩ := hplain
      rw [hescaped, List.singleton_append, lastLine, if_neg hreturn, ih]
      exact fun _ _ heq => absurd heq hbackslash

theorem nul_notMem_escaped (text : List Char) : '\x00' ∉ text.flatMap escaped := by
  intro h
  obtain ⟨c, -, hc⟩ := List.mem_flatMap.1 h
  rcases escaped_cases c with ⟨d, hescaped, -, -, -, hnul⟩ | rfl | ⟨hescaped, hplain⟩
  · rw [hescaped] at hc
    simp [hnul.symm] at hc
  · simp [escaped] at hc
  · rw [hescaped, List.mem_singleton] at hc
    exact hplain.2.2.2.2 hc.symm

theorem evaluateString_escaped (names : CharacterNames) (text : List Char) :
    evaluateString names (text.flatMap escaped) = .ok (text.map .character) := by
  have hnul : (text.flatMap escaped).contains '\x00' = false := by
    rw [List.contains_eq_mem]
    exact decide_eq_false (nul_notMem_escaped text)
  simp only [evaluateString, hnul, lastLine_escaped, unescape_escaped]
  rfl

theorem mapM_character? (text : List Char) :
    (text.map CodePoint.character).mapM CodePoint.character? = some text := by
  induction text with
  | nil => rfl
  | cons c text ih => simp [ih, CodePoint.character?]

theorem ofCodePoints_characters (text : List Char) :
    Literal.ofCodePoints (text.map .character) = .string (String.ofList text) := by
  unfold Literal.ofCodePoints
  split
  · rename_i found hfound
    rw [mapM_character?] at hfound
    cases hfound
    rfl
  · rename_i hbroken
    rw [mapM_character?] at hbroken
    cases hbroken

/-! ## Integers -/

/-- An integer is written with its digits, behind a sign if it is negative. -/
theorem repr_cases (n : Int) :
    0 ≤ n ∧ n.repr.toList = Nat.toDigits 10 n.natAbs ∨
    n < 0 ∧ n.repr.toList = '-' :: Nat.toDigits 10 n.natAbs := by
  rw [Int.repr_eq_if]
  split_ifs with hn
  · have habs : n.toNat = n.natAbs := by omega
    rw [Nat.toList_repr, habs]
    exact Or.inl ⟨hn, rfl⟩
  · have habs : (-n).toNat = n.natAbs := by omega
    rw [String.toList_append, Nat.toList_repr, habs]
    exact Or.inr ⟨Int.not_le.1 hn, rfl⟩

theorem isDigit_of_mem_digits {n : Nat} {c : Char} (h : c ∈ Nat.toDigits 10 n) : c.isDigit :=
  Nat.isDigit_of_mem_toDigits (by decide) (by decide) h

theorem decimalValue_digits (n : Nat) : decimalValue (Nat.toDigits 10 n) = n := by
  have hvalue := Nat.ofDigitChars_ten_toDigits (n := n)
  rwa [Nat.ofDigitChars_eq_foldl] at hvalue

theorem unsignedNumberOf_digits (n : Nat) :
    unsignedNumberOf (Nat.toDigits 10 n) = Nat.toDigits 10 n := by
  have hdigits : digitsOf (Nat.toDigits 10 n) = Nat.toDigits 10 n :=
    List.takeWhile_eq_self_iff.2 (fun c hc => isDigit_of_mem_digits hc)
  have hpoint : Nat.toDigits 10 n ≠ ['.'] := by
    intro h
    have hdigit : ('.' : Char).isDigit := isDigit_of_mem_digits (h ▸ List.mem_singleton.2 rfl)
    exact absurd hdigit (by decide)
  have hmantissa : mantissaOf (Nat.toDigits 10 n) = Nat.toDigits 10 n := by
    simp [mantissaOf, hdigits, fractionOf, hpoint]
  simp [unsignedNumberOf, hmantissa, exponentOf]

theorem numberOf_repr (n : Int) : numberOf n.repr.toList = n.repr.toList := by
  rcases repr_cases n with ⟨-, htext⟩ | ⟨-, htext⟩
  · have hsign : signOf (Nat.toDigits 10 n.natAbs) = [] := by
      cases hdigits : Nat.toDigits 10 n.natAbs with
      | nil => rfl
      | cons c digits =>
        have hdigit : c.isDigit := isDigit_of_mem_digits (hdigits ▸ List.mem_cons_self)
        refine if_neg ?_
        rintro (rfl | rfl) <;> exact absurd hdigit (by decide)
    rw [htext, numberOf, hsign]
    simp [unsignedNumberOf_digits]
  · rw [htext]
    simp [numberOf, signOf, unsignedNumberOf_digits]

theorem not_isNameStart_of_isDigit {c : Char} (h : c.isDigit) : isNameStart c = false := by
  have hunderscore : c ≠ '_' := by
    rintro rfl
    exact absurd h (by decide)
  have halpha : c.isAlpha = (c.isUpper || c.isLower) := rfl
  have hupper : c.isUpper = decide (c.val ≥ 'A'.val ∧ c.val ≤ 'Z'.val) := rfl
  have hlower : c.isLower = (decide (c.val ≥ 'a'.val) && decide (c.val ≤ 'z'.val)) := rfl
  grind [isNameStart, Char.isDigit]

theorem nameOf_repr (n : Int) : nameOf n.repr.toList = [] := by
  rcases repr_cases n with ⟨-, htext⟩ | ⟨-, htext⟩
  · rw [htext]
    cases hdigits : Nat.toDigits 10 n.natAbs with
    | nil => rfl
    | cons c digits =>
      have hdigit : c.isDigit := isDigit_of_mem_digits (hdigits ▸ List.mem_cons_self)
      simp [nameOf, not_isNameStart_of_isDigit hdigit]
  · rw [htext]
    rfl

theorem any_digits_eq_false (n : Nat) :
    (Nat.toDigits 10 n).any (fun c => c == '.' || c == 'e' || c == 'E') = false := by
  refine List.any_eq_false.2 (fun c hc => ?_)
  have hdigit := isDigit_of_mem_digits hc
  simp only [Bool.or_eq_true, beq_iff_eq]
  rintro ((rfl | rfl) | rfl) <;> exact absurd hdigit (by decide)

theorem evaluateNumber_repr {n : Int}
    (h : (Nat.toDigits 10 n.natAbs).length ≤ digitLimit) :
    evaluateNumber n.repr.toList = .ok (.int n) := by
  have hfilter : (Nat.toDigits 10 n.natAbs).filter Char.isDigit = Nat.toDigits 10 n.natAbs :=
    List.filter_eq_self.2 (fun c hc => isDigit_of_mem_digits hc)
  have hshort : ¬ digitLimit < (Nat.toDigits 10 n.natAbs).length := Nat.not_lt.2 h
  rcases repr_cases n with ⟨hsign, htext⟩ | ⟨hsign, htext⟩
  · have hhead : (Nat.toDigits 10 n.natAbs).head? ≠ some '-' := by
      intro hhead
      have hdigit := isDigit_of_mem_digits (List.mem_of_head? hhead)
      exact absurd hdigit (by decide)
    have hvalue : (n.natAbs : Int) = n := by omega
    rw [htext]
    simp only [evaluateNumber, any_digits_eq_false, Bool.false_eq_true, if_false, hfilter, hshort,
      hhead, decimalValue_digits, hvalue]
  · have hvalue : -(n.natAbs : Int) = n := by omega
    have hany : ('-' :: Nat.toDigits 10 n.natAbs).any
        (fun c => c == '.' || c == 'e' || c == 'E') = false :=
      any_digits_eq_false n.natAbs
    have hdash : ('-' :: Nat.toDigits 10 n.natAbs).filter Char.isDigit =
        Nat.toDigits 10 n.natAbs :=
      hfilter
    rw [htext]
    simp only [evaluateNumber, hany, Bool.false_eq_true, if_false, hdash, hshort, List.head?_cons,
      if_true, decimalValue_digits, hvalue]

/-! ## Values -/

theorem lexeme?_spelling {v : Literal} (h : v.Writable) :
    lexeme? false v.spelling.text = some (.literal v.spelling, []) := by
  cases v with
  | nil => decide
  | bool b => cases b <;> decide
  | int n =>
    have hne : n.repr.toList ≠ [] := by
      rcases repr_cases n with ⟨-, htext⟩ | ⟨-, htext⟩ <;> simp [htext]
    obtain ⟨c, text, htext⟩ := List.exists_cons_of_ne_nil hne
    have hword : wordOrNumber? false n.repr.toList =
        some (.literal (.number n.repr.toList), []) := by
      simp [wordOrNumber?, nameOf_repr, numberOf_repr, hne]
    rw [Literal.spelling, Spelling.text]
    rw [htext] at hword ⊢
    rw [lexeme?_of_beginsWord text (beginsWord_of_wordOrNumber? hword), hword]
  | float x => exact h.elim
  | string s =>
    simp [Literal.spelling, Spelling.text, lexeme?, afterString?_escaped]
  | broken b => exact h.elim

theorem evaluate_spelling (names : CharacterNames) {v : Literal} (h : v.Writable) :
    v.spelling.evaluate names = .ok v := by
  cases v with
  | nil => rfl
  | bool b => cases b <;> rfl
  | int n => exact evaluateNumber_repr h
  | float x => exact h.elim
  | string s =>
    simp [Literal.spelling, Spelling.evaluate, evaluateString_escaped, ofCodePoints_characters]
  | broken b => exact h.elim

end ModuleLoader.Script
