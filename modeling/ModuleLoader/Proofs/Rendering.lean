import ModuleLoader.Proofs.Acceptance
import ModuleLoader.Proofs.Spellings

/-!
# Programs are read back as they are written

* `Expression.text`, `Statement.text`, `Program.text` : a program written down, one statement on a
  line;
* `Program.Writable` : its names are names and its values can be written;
* `Reads` : a text is read as tokens where nothing follows that would lengthen them;
* `exists_expr_text`, `exists_clause_text` : what is written for a construct has a derivation that
  stands for it;
* `parse_text` : a written program is read back.
-/

namespace ModuleLoader.Script

open ModuleLoader.Script.Derivation (Expr Items More Clause Sentence)

/-! ## Written programs -/

/-- The text is a name, which may be a keyword. -/
def IsName : List Char → Prop
  | c :: rest => isNameStart c ∧ rest.all isNamePart
  | [] => False

instance : DecidablePred IsName
  | c :: rest => inferInstanceAs (Decidable (isNameStart c ∧ rest.all isNamePart))
  | [] => .isFalse id

/-- The text is a name and no keyword. -/
def IsVariable (text : List Char) : Prop := IsName text ∧ Keyword.ofText? text = none

instance : DecidablePred IsVariable :=
  fun text => inferInstanceAs (Decidable (IsName text ∧ Keyword.ofText? text = none))

mutual
def Expression.text : Expression Literal → List Char
  | .literal value _ => value.spelling.text
  | .symbol name _ => '\'' :: name.toList
  | .array items _ => '[' :: (itemsText items ++ [']'])
  | .reference name _ => name.toList
  | .call name arguments _ => name.toList ++ '(' :: (itemsText arguments ++ [')'])

def itemsText : List (Expression Literal) → List Char
  | [] => []
  | item :: items => item.text ++ moreText items

def moreText : List (Expression Literal) → List Char
  | [] => []
  | item :: items => ',' :: ' ' :: (item.text ++ moreText items)
end

def Statement.text : Statement Literal → List Char
  | .evaluate e => e.text
  | .assign name value _ => name.toList ++ ' ' :: ':' :: '=' :: ' ' :: value.text

def Program.text (program : Program) : List Char :=
  program.statements.flatMap (fun s => s.text ++ ['\n'])

mutual
/-- The names in the expression are names, and its values can be written. -/
def Expression.Writable : Expression Literal → Prop
  | .literal value _ => value.Writable
  | .symbol name _ => IsName name.toList
  | .array items _ => AllWritable items
  | .reference name _ => IsVariable name.toList
  | .call name arguments _ => IsVariable name.toList ∧ AllWritable arguments

def AllWritable : List (Expression Literal) → Prop
  | [] => True
  | item :: items => item.Writable ∧ AllWritable items
end

def Statement.Writable : Statement Literal → Prop
  | .evaluate e => e.Writable
  | .assign name value _ => IsVariable name.toList ∧ value.Writable

def Program.Writable (program : Program) : Prop := ∀ s ∈ program.statements, s.Writable

/-! ## Reading what is written -/

/-- The lexeme stands between others and is not a quote. -/
def Lexeme.isPunctuation : Lexeme → Bool
  | .literal _ | .name _ | .quote => false
  | _ => true

theorem isClosed_of_isPunctuation {lexeme : Lexeme} (h : lexeme.isPunctuation) :
    lexeme.IsClosed := by
  cases lexeme with
  | literal spelling => cases h
  | name text => cases h
  | quote => cases h
  | _ => exact fun _ _ => rfl

theorem stops_punctuation {lexeme : Lexeme} (h : lexeme.isPunctuation) (rest : List Char) :
    Stops (lexeme.text ++ rest) := by
  cases lexeme with
  | literal spelling => cases h
  | name text => cases h
  | quote => cases h
  | _ => exact stops_cons (by decide)

/-- The text that begins at the position is read as these tokens, where nothing follows that would
lengthen them, and their literals have values. -/
structure Reads (names : CharacterNames) (p : Position) (text : List Char) (tokens : List Token) :
    Prop where
  scanned : ∀ rest more, Stops rest → Scanned false (p.after text) rest more →
    Scanned false p (text ++ rest) (tokens ++ more)
  values : Evaluates names (Spelling.value names) tokens

namespace Reads
variable {names : CharacterNames} {p : Position} {s t : List Char} {tokens others : List Token}

theorem nothing : Reads names p [] [] :=
  ⟨fun _ _ _ h => h, evaluates_nil⟩

theorem append (hs : Reads names p s tokens) (ht : Reads names (p.after s) t others)
    (hstops : ∀ rest, Stops rest → Stops (t ++ rest)) :
    Reads names p (s ++ t) (tokens ++ others) := by
  refine ⟨fun rest more hrest hmore => ?_, evaluates_append.2 ⟨hs.values, ht.values⟩⟩
  rw [Position.after_append] at hmore
  rw [List.append_assoc, List.append_assoc]
  exact hs.scanned _ _ (hstops rest hrest) (ht.scanned rest more hrest hmore)

theorem blank (h : Reads names (p.next ' ') t tokens) : Reads names p (' ' :: t) tokens := by
  refine ⟨fun rest more hrest hmore => ?_, h.values⟩
  have hgap : Trivia false [' '] false := .blank rfl .nothing
  have hread : Scanned false (p.after [' ']) (t ++ rest) (tokens ++ more) :=
    h.scanned rest more hrest hmore
  exact hread.prepend hgap

theorem punctuation (lexeme : Lexeme) (hlexeme : lexeme.isPunctuation)
    (h : Reads names (p.after lexeme.text) t tokens) :
    Reads names p (lexeme.text ++ t) (⟨lexeme, p, p.after lexeme.text⟩ :: tokens) := by
  have hquote : (lexeme == .quote) = false := by
    cases lexeme with
    | quote => cases hlexeme
    | _ => rfl
  have hplain : lexeme.spelling? = none := by
    cases lexeme with
    | literal spelling => cases hlexeme
    | _ => rfl
  refine ⟨fun rest more hrest hmore => ?_, evaluates_cons.2 ⟨by simp [hplain], h.values⟩⟩
  rw [Position.after_append] at hmore
  rw [List.append_assoc]
  have hread := isClosed_of_isPunctuation hlexeme false (t ++ rest)
  exact .lexeme hread (hquote ▸ h.scanned rest more hrest hmore)

theorem enclosed (opening closing : Lexeme) (hopening : opening.isPunctuation)
    (hclosing : closing.isPunctuation) (h : Reads names (p.after opening.text) t tokens) :
    ∃ first last, Reads names p (opening.text ++ (t ++ closing.text))
      (⟨opening, first⟩ :: (tokens ++ [⟨closing, last⟩])) := by
  have hend := @punctuation names ((p.after opening.text).after t) _ _ closing hclosing nothing
  rw [List.append_nil] at hend
  exact ⟨_, _, punctuation opening hopening
    (h.append hend (fun rest _ => stops_punctuation hclosing rest))⟩

theorem lexeme {lexeme : Lexeme} (h : lexeme? false s = some (lexeme, []))
    (hquote : (lexeme == .quote) = false)
    (hvalue : ∀ spelling ∈ lexeme.spelling?, spelling.evaluate names = .ok (spelling.value names)) :
    Reads names p s [⟨lexeme, p, p.after s⟩] := by
  refine ⟨fun rest more hrest hmore => ?_, evaluates_cons.2 ⟨hvalue, evaluates_nil⟩⟩
  have htext : s = lexeme.text := by simpa using (lexeme?_append h).1
  have hread := lexeme?_append_of_stops h hrest
  rw [htext] at hread hmore ⊢
  exact .lexeme hread (hquote ▸ hmore)

theorem literal {v : Literal} (h : v.Writable) :
    Reads names p v.spelling.text [⟨.literal v.spelling, p, p.after v.spelling.text⟩] := by
  refine lexeme (lexeme?_spelling h) rfl ?_
  rintro _ ⟨⟩
  exact Spelling.evaluate_eq_value (evaluate_spelling names h)

end Reads

theorem value_spelling (names : CharacterNames) {v : Literal} (h : v.Writable) :
    v.spelling.value names = v := by
  simp [Spelling.value, evaluate_spelling names h]

theorem lexeme?_name {text : List Char} (h : IsName text) (afterQuote : Bool) :
    lexeme? afterQuote text = some (wordLexeme afterQuote text, []) := by
  cases text with
  | nil => exact h.elim
  | cons c rest =>
    obtain ⟨hstart, hparts⟩ := h
    have hbegins : beginsWord c := by simp [beginsWord, hstart]
    have hname : nameOf (c :: rest) = c :: rest := by
      rw [nameOf, if_pos hstart, List.takeWhile_eq_self_iff.2 (List.all_eq_true.1 hparts)]
    rw [lexeme?_of_beginsWord rest hbegins]
    simp [wordOrNumber?, hname]

theorem reads_variable {names : CharacterNames} {p : Position} {text : List Char}
    (h : IsVariable text) : Reads names p text [⟨.name text, p, p.after text⟩] := by
  have hname : lexeme? false text = some (.name text, []) := by
    rw [lexeme?_name h.1]
    simp [wordLexeme, h.2]
  exact .lexeme hname rfl (by simp [Lexeme.spelling?])

/-- Behind a quote, a name is read even if it is a keyword. -/
theorem reads_symbol {names : CharacterNames} {p : Position} {text : List Char} (h : IsName text) :
    Reads names p ('\'' :: text) [⟨.quote, p, p.after ['\'']⟩,
      ⟨.name text, p.after ['\''], (p.after ['\'']).after text⟩] := by
  refine ⟨fun rest more hrest hmore => ?_, by simp [Evaluates, Lexeme.spelling?]⟩
  have hname : lexeme? true ((Lexeme.name text).text ++ rest) = some (.name text, rest) :=
    lexeme?_append_of_stops (lexeme?_name h true) hrest
  have hquote : lexeme? false (Lexeme.quote.text ++ (text ++ rest)) = some (.quote, text ++ rest) :=
    rfl
  exact Scanned.lexeme hquote (Scanned.lexeme hname hmore)

theorem stops_moreText (items : List (Expression Literal)) (rest : List Char) (h : Stops rest) :
    Stops (moreText items ++ rest) := by
  cases items with
  | nil => exact h
  | cons item items => exact stops_cons (by decide)

section
variable {names : CharacterNames}

mutual
/-- What is written for an expression has a derivation that stands for it. -/
theorem exists_expr_text (e : Expression Literal) (h : e.Writable) (p : Position) :
    ∃ t : Expr, Reads names p e.text t.tokens ∧
      (t.expression (Spelling.value names)).unlocated = e.unlocated := by
  cases e with
  | literal value span =>
    refine ⟨.literal value.spelling ⟨p, p.after value.spelling.text⟩, .literal h, ?_⟩
    simp only [Expr.expression, value_spelling names h]
    rfl
  | symbol name span =>
    refine ⟨.symbol ⟨p, p.after ['\'']⟩ name.toList
      ⟨p.after ['\''], (p.after ['\'']).after name.toList⟩, reads_symbol h, ?_⟩
    simp only [Expr.expression, String.ofList_toList]
    rfl
  | array items span =>
    obtain ⟨tree, hreads, hsame⟩ := exists_items_text items h (p.next '[')
    obtain ⟨opening, closing, hwhole⟩ := hreads.enclosed .openBracket .closeBracket rfl rfl
    refine ⟨.array opening tree closing, hwhole, ?_⟩
    simp only [Expr.expression, Expression.unlocated, Expression.relocate, hsame]
    rfl
  | reference name span =>
    refine ⟨.reference name.toList ⟨p, p.after name.toList⟩, reads_variable h, ?_⟩
    simp only [Expr.expression, String.ofList_toList]
    rfl
  | call name arguments span =>
    obtain ⟨hname, harguments⟩ := h
    obtain ⟨tree, hreads, hsame⟩ :=
      exists_items_text arguments harguments ((p.after name.toList).next '(')
    obtain ⟨opening, closing, hwhole⟩ := hreads.enclosed .openParen .closeParen rfl rfl
    refine ⟨.call name.toList ⟨p, p.after name.toList⟩ opening tree closing,
      (reads_variable hname).append hwhole (fun _ _ => stops_cons (by decide)), ?_⟩
    simp only [Expr.expression, Expression.unlocated, Expression.relocate, hsame,
      String.ofList_toList]
    rfl

theorem exists_items_text (items : List (Expression Literal)) (h : AllWritable items)
    (p : Position) : ∃ tree : Items, Reads names p (itemsText items) tree.tokens ∧
      relocateAll (fun _ => .origin) (tree.expressions (Spelling.value names)) =
        relocateAll (fun _ => .origin) items := by
  cases items with
  | nil => exact ⟨.nothing, .nothing, rfl⟩
  | cons item items =>
    obtain ⟨first, hfirst, hsame⟩ := exists_expr_text item h.1 p
    obtain ⟨more, hmore, hothers⟩ := exists_more_text items h.2 (p.after item.text)
    refine ⟨.items first more, hfirst.append hmore (stops_moreText items), ?_⟩
    exact congrArg₂ List.cons hsame hothers

theorem exists_more_text (items : List (Expression Literal)) (h : AllWritable items)
    (p : Position) : ∃ tree : More, Reads names p (moreText items) tree.tokens ∧
      relocateAll (fun _ => .origin) (tree.expressions (Spelling.value names)) =
        relocateAll (fun _ => .origin) items := by
  cases items with
  | nil => exact ⟨.done, .nothing, rfl⟩
  | cons item items =>
    obtain ⟨first, hfirst, hsame⟩ := exists_expr_text item h.1 ((p.next ',').next ' ')
    obtain ⟨more, hmore, hothers⟩ :=
      exists_more_text items h.2 (((p.next ',').next ' ').after item.text)
    have hitem := (hfirst.append hmore (stops_moreText items)).blank
    refine ⟨.next _ first more, hitem.punctuation .comma rfl, ?_⟩
    exact congrArg₂ List.cons hsame hothers
end

theorem exists_clause_text (s : Statement Literal) (h : s.Writable) (p : Position) :
    ∃ c : Clause, Reads names p s.text c.tokens ∧
      (c.statement (Spelling.value names)).unlocated = s.unlocated := by
  cases s with
  | evaluate e =>
    obtain ⟨t, hreads, hsame⟩ := exists_expr_text e h p
    exact ⟨.expression t, hreads, congrArg Statement.evaluate hsame⟩
  | assign name value span =>
    obtain ⟨hname, hvalue⟩ := h
    obtain ⟨t, hreads, hsame⟩ := @exists_expr_text names value hvalue
      (((p.after name.toList).next ' ').after [':', '=', ' '])
    have hassign := (hreads.blank.punctuation .assign rfl).blank
    refine ⟨.assignment name.toList _ _ t,
      (reads_variable hname).append hassign (fun _ _ => stops_cons (by decide)), ?_⟩
    simp only [Clause.statement, String.ofList_toList]
    exact congrArg (fun e => Statement.assign name e _) hsame

/-- The lines of a program are read, one statement from each. -/
theorem exists_sentences_text (statements : List (Statement Literal))
    (h : ∀ s ∈ statements, s.Writable) (p : Position) :
    ∃ d : Derivation, Scanned false p (statements.flatMap (fun s => s.text ++ ['\n'])) d.tokens ∧
      Evaluates names (Spelling.value names) d.tokens ∧
      (d.statements (Spelling.value names)).map Statement.unlocated =
        statements.map Statement.unlocated := by
  induction statements generalizing p with
  | nil => exact ⟨⟨[]⟩, .done .nothing, evaluates_nil, rfl⟩
  | cons s statements ih =>
    obtain ⟨hs, hothers⟩ := List.forall_mem_cons.1 h
    obtain ⟨c, hreads, hsame⟩ := @exists_clause_text names s hs p
    obtain ⟨d, hscanned, hvalues, hmore⟩ := ih hothers ((p.after s.text).next '\n')
    have hgap : Trivia false ['\n'] false := .blank rfl .nothing
    have hline : Scanned false ((p.after s.text).after ['\n'])
        (statements.flatMap (fun s => s.text ++ ['\n'])) d.tokens := hscanned
    have htokens : Derivation.tokens ⟨⟨c, none⟩ :: d.sentences⟩ = c.tokens ++ d.tokens := by
      simp [Derivation.tokens, Sentence.tokens]
    refine ⟨⟨⟨c, none⟩ :: d.sentences⟩, ?_, ?_, ?_⟩
    · -- The line feed stops whatever the statement ends with.
      rw [htokens, List.flatMap_cons, List.append_assoc]
      exact hreads.scanned _ _ (stops_cons (by decide)) (hline.prepend hgap)
    · rw [htokens]
      exact evaluates_append.2 ⟨hreads.values, hvalues⟩
    · exact congrArg₂ List.cons hsame hmore

end

/-- A program that is written down is read back, up to where its constructs stand. -/
theorem parse_text (names : CharacterNames) (program : Program) (h : program.Writable) :
    ∃ read, parse names program.file program.text = .ok read ∧
      read.unlocated = program.unlocated := by
  obtain ⟨d, hscanned, hvalues, hsame⟩ := exists_sentences_text program.statements h .origin
  refine ⟨_, parse_derivation _ program.file (scanned_iff.1 hscanned) hvalues, ?_⟩
  simp only [Program.unlocated, hsame]

theorem parse_text_quote :
    Program.Writable ⟨"main", [.assign "s" (.array [.literal (.string "\"") ⟨.origin, .origin⟩,
      .symbol "nil" ⟨.origin, .origin⟩] ⟨.origin, .origin⟩) ⟨.origin, .origin⟩], none⟩ ∧
    ∃ read, parse bulletNamed "main" ['s', ' ', ':', '=', ' ', '[', '"', '\\', '"', '"', ',', ' ',
        '\'', 'n', 'i', 'l', ']', '\n'] = .ok read ∧
      read.unlocated = ⟨"main", [.assign "s" (.array [.literal (.string "\"") ⟨.origin, .origin⟩,
        .symbol "nil" ⟨.origin, .origin⟩] ⟨.origin, .origin⟩) ⟨.origin, .origin⟩], none⟩ := by
  have hwritable : Program.Writable ⟨"main", [.assign "s" (.array [.literal (.string "\"")
      ⟨.origin, .origin⟩, .symbol "nil" ⟨.origin, .origin⟩] ⟨.origin, .origin⟩)
        ⟨.origin, .origin⟩], none⟩ := by
    intro s hs
    obtain rfl := List.mem_singleton.1 hs
    have hname : IsVariable ['s'] := by decide
    have hsymbol : IsName ['n', 'i', 'l'] := by decide
    exact ⟨hname, trivial, hsymbol, trivial⟩
  exact ⟨hwritable, parse_text bulletNamed _ hwritable⟩

end ModuleLoader.Script
