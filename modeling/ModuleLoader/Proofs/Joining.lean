import ModuleLoader.Proofs.Acceptance

/-!
# Programs one below the other

* `Span.join` : the extent of two constructs, either of which may be missing;
* `Derivation.append` : the sentences of one derivation and then those of another;
* `parse_join` : a source below another one, with a line feed between them, is the program of the
  one followed by that of the other.
-/

namespace ModuleLoader.Script

def Span.join : Option Span → Option Span → Option Span
  | some first, some last => some ⟨first.start, last.stop⟩
  | some first, none => some first
  | none, last => last

theorem extent_append (s t : List Token) : extent (s ++ t) = Span.join (extent s) (extent t) := by
  cases s with
  | nil => rfl
  | cons first s =>
    cases t with
    | nil =>
      rw [List.append_nil]
      rfl
    | cons second t => simp [extent, Span.join, List.getLast?_cons]

theorem extent_relocate (move : Position → Position) (tokens : List Token) :
    extent (tokens.map (Token.relocate move)) = (extent tokens).map (Span.relocate move) := by
  cases tokens with
  | nil => rfl
  | cons first tokens =>
    simp only [extent, List.head?_map, List.getLast?_map, List.head?_cons, List.getLast?_cons]
    rfl

theorem Position.origin_after_line (text : List Char) :
    (Position.origin.after text).next '\n' =
      Position.origin.down (1 + text.count '\n') := by
  have hline (p : Position) : (p.after text).line = p.line + text.count '\n' := by
    induction text generalizing p with
    | nil => rfl
    | cons c text ih =>
      rw [Position.after_cons, ih, List.count_cons, Position.next]
      split
      · rename_i hc
        simp [hc]
        omega
      · rename_i hc
        simp [hc]
  simp only [Position.next, if_true, hline, Position.down, Position.origin]
  congr 1
  omega

namespace Derivation

def append (d d' : Derivation) : Derivation := ⟨d.sentences ++ d'.sentences⟩

theorem tokens_append (d d' : Derivation) : (d.append d').tokens = d.tokens ++ d'.tokens :=
  List.flatMap_append

theorem statements_append {α : Type} (value : Spelling → α) (d d' : Derivation) :
    (d.append d').statements value = d.statements value ++ d'.statements value :=
  List.map_append

end Derivation

/-- The tokens of a source below another one are those of both, the lower ones moved down. -/
theorem ofText_line {a b : List Char} {d d' : Derivation}
    (ha : Tokens.ofText a = ⟨d.tokens, none⟩) (hb : Tokens.ofText b = ⟨d'.tokens, none⟩) :
    Tokens.ofText (a ++ '\n' :: b) =
      ⟨(d.append (d'.relocate (Position.down (1 + a.count '\n')))).tokens, none⟩ := by
  have habove : Scanned false .origin a d.tokens := scanned_iff.2 ha
  have hbelow := (scanned_iff.2 hb).relocate (carries_down (1 + a.count '\n') .origin)
  rw [← Position.origin_after_line, ← Derivation.tokens_relocate] at hbelow
  have hopen : endsInQuote false d.tokens = false := Derivation.endsInQuote_sentences d.sentences
  rw [Derivation.tokens_append]
  exact scanned_iff.1 (habove.append_line (by rw [hopen]; exact hbelow))

/-- A program below another one makes one program with it: the statements of the upper one, where
they stand, and then those of the lower one, moved down by the lines above them. -/
theorem parse_join (names : CharacterNames) (file : String) (a b : List Char) (p q : Program)
    (ha : parse names file a = .ok p) (hb : parse names file b = .ok q) :
    parse names file (a ++ '\n' :: b) =
      .ok ⟨file,
        p.statements ++
          q.statements.map (Statement.relocate (Position.down (1 + a.count '\n'))),
        Span.join p.span
          (q.span.map (Span.relocate (Position.down (1 + a.count '\n'))))⟩ := by
  obtain ⟨d, hd, hvalues, rfl⟩ := exists_derivation ha
  obtain ⟨d', hd', hvalues', rfl⟩ := exists_derivation hb
  have hjoined : Evaluates names (Spelling.value names)
      (d.append (d'.relocate (Position.down (1 + a.count '\n')))).tokens := by
    rw [Derivation.tokens_append, Derivation.tokens_relocate]
    exact evaluates_append.2 ⟨hvalues, hvalues'.relocate _⟩
  rw [parse_derivation _ file (ofText_line hd hd') hjoined, Derivation.statements_append,
    Derivation.statements_relocate, Derivation.tokens_append, Derivation.tokens_relocate,
    extent_append, extent_relocate]

theorem parse_join_comment :
    parse bulletNamed "main" "\"\\N\x7bBULLET\x7d\"//".toList =
      .ok ⟨"main", [.evaluate (.literal (.string "•") ⟨⟨1, 1⟩, ⟨1, 13⟩⟩)],
        some ⟨⟨1, 1⟩, ⟨1, 13⟩⟩⟩ ∧
    parse bulletNamed "main" "[]".toList =
      .ok ⟨"main", [.evaluate (.array [] ⟨⟨1, 1⟩, ⟨1, 3⟩⟩)], some ⟨⟨1, 1⟩, ⟨1, 3⟩⟩⟩ ∧
    parse bulletNamed "main" ("\"\\N\x7bBULLET\x7d\"//".toList ++ '\n' :: "[]".toList) =
      .ok ⟨"main", [.evaluate (.literal (.string "•") ⟨⟨1, 1⟩, ⟨1, 13⟩⟩),
        .evaluate (.array [] ⟨⟨2, 1⟩, ⟨2, 3⟩⟩)], some ⟨⟨1, 1⟩, ⟨2, 3⟩⟩⟩ := by
  have ha : Tokens.ofText "\"\\N\x7bBULLET\x7d\"//".toList = ⟨Derivation.tokens
      ⟨[⟨.expression (.literal (.string "\\N\x7bBULLET\x7d".toList) ⟨⟨1, 1⟩, ⟨1, 13⟩⟩), none⟩]⟩,
      none⟩ := by
    decide +kernel
  have hb : Tokens.ofText "[]".toList = ⟨Derivation.tokens
      ⟨[⟨.expression (.array ⟨⟨1, 1⟩, ⟨1, 2⟩⟩ .nothing ⟨⟨1, 2⟩, ⟨1, 3⟩⟩), none⟩]⟩, none⟩ := by
    decide +kernel
  have hp := @parse_derivation bulletNamed (fun _ => .string "•") "main" _ _ ha (by decide +kernel)
  have hq := @parse_derivation bulletNamed (fun _ => .nil) "main" _ _ hb (by decide +kernel)
  exact ⟨hp, hq, parse_join bulletNamed "main" _ _ _ _ hp hq⟩

end ModuleLoader.Script
