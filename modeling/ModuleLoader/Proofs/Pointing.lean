import Mathlib.Data.List.Induction
import ModuleLoader.Proofs.Acceptance
import ModuleLoader.Proofs.Action
import ModuleLoader.Proofs.Continuation
import ModuleLoader.Proofs.Spellings
import ModuleLoader.Session

/-!
# Syntax reports point into the source

* `ReadUpTo` : the text before a place splits into these tokens (`exists_stray`, `exists_token`);
* `SourceFault.Concerns` : a fault is about the construct that begins with this character;
* `Position.Marks` : the place of this character on this line (`marks_after`);
* `Underlines` : a message ends with a line behind its number and one caret below it
  (`underlines_render`);
* `exists_concern` : a fault with a place is about what stands there;
* `readProgram_points` : a source is a program, or it is reported, and the report points to what is
  at fault.
-/

namespace ModuleLoader.Script

/-! ## What stands before a place -/

theorem not_isBlank_of_skipTrivia {inComment : Bool} {p place : Position} {text rest : List Char}
    {c : Char} (h : skipTrivia inComment p text = (place, c :: rest)) : isBlank c = false := by
  fun_induction skipTrivia inComment p text with
  | case1 => cases h
  | case2 p c rest ih => exact ih h
  | case3 p c rest hblank ih => exact ih h
  | case4 p c rest hblank hslashes ih => exact ih h
  | case5 p c rest hblank hslashes =>
    cases h
    exact Bool.eq_false_iff.2 hblank

theorem skipTrivia_idem {inComment : Bool} {p place : Position} {text rest : List Char} {c : Char}
    (h : skipTrivia inComment p text = (place, c :: rest)) :
    skipTrivia false place (c :: rest) = (place, c :: rest) := by
  fun_induction skipTrivia inComment p text with
  | case1 => cases h
  | case2 p c rest ih => exact ih h
  | case3 p c rest hblank ih => exact ih h
  | case4 p c rest hblank hslashes ih => exact ih h
  | case5 p c rest hblank hslashes =>
    cases h
    rw [skipTrivia, if_neg hblank, if_neg hslashes]

/-- What is skipped in front of a character that is no trivia is trivia. -/
theorem exists_gap {p place : Position} {text rest : List Char} {c : Char}
    (h : skipTrivia false p text = (place, c :: rest)) :
    ∃ gap, text = gap ++ c :: rest ∧ Trivia false gap false ∧ place = p.after gap := by
  obtain ⟨gap, behind, htext, hgap, hplace, hend⟩ := exists_trivia false p text
  rw [h] at htext hplace hend
  obtain rfl : behind = false := hend.resolve_left (List.cons_ne_nil c rest)
  exact ⟨gap, htext, hgap, hplace⟩

/-- The text is read up to a place, where `rest` is left of it: what stands before splits into these
tokens. -/
def ReadUpTo (afterQuote : Bool) (p : Position) (text : List Char) (tokens : List Token)
    (place : Position) (rest : List Char) : Prop :=
  ∃ head, text = head ++ rest ∧ place = p.after head ∧
    Tokens.scan afterQuote p head = ⟨tokens, none⟩

section
variable {afterQuote : Bool} {p place : Position} {gap text rest : List Char} {tokens : List Token}

theorem readUpTo_trivia (h : Trivia false gap false) :
    ReadUpTo afterQuote p (gap ++ rest) [] (p.after gap) rest :=
  ⟨gap, rfl, rfl, (Scanned.done h).scan⟩

theorem ReadUpTo.cons {lexeme : Lexeme} (trivia : Trivia false gap false)
    (read : lexeme? afterQuote (lexeme.text ++ text) = some (lexeme, text))
    (h : ReadUpTo (lexeme == .quote) ((p.after gap).after lexeme.text) text tokens place rest) :
    ReadUpTo afterQuote p (gap ++ (lexeme.text ++ text))
      (⟨lexeme, p.after gap, (p.after gap).after lexeme.text⟩ :: tokens) place rest := by
  obtain ⟨head, rfl, rfl, hscan⟩ := h
  rw [← List.append_assoc lexeme.text] at read
  have hread := lexeme?_of_append read
  refine ⟨gap ++ (lexeme.text ++ head), by simp, by simp, ?_⟩
  exact (Scanned.token trivia hread (scanned_of_scan hscan)).scan

end

/-- Before a stray character stand the tokens, and nothing begins with it. -/
theorem exists_stray {afterQuote : Bool} {p place : Position} {text : List Char}
    {tokens : List Token} {c : Char}
    (h : Tokens.scan afterQuote p text = ⟨tokens, some (c, place)⟩) :
    ∃ rest, ReadUpTo afterQuote p text tokens place (c :: rest) ∧
      skipTrivia false place (c :: rest) = (place, c :: rest) ∧
      lexeme? (endsInQuote afterQuote tokens) (c :: rest) = none := by
  fun_induction Tokens.scan afterQuote p text generalizing tokens with
  | case1 => cases h
  | case2 afterQuote p text start d rest hskip hnone =>
    cases h
    obtain ⟨gap, rfl, hgap, rfl⟩ := exists_gap hskip
    exact ⟨rest, readUpTo_trivia hgap, skipTrivia_idem hskip, hnone⟩
  | case3 afterQuote p text start d behind hskip lexeme tail hread stop =>
    rename_i ih
    obtain ⟨rfl, hstray⟩ := Tokens.mk.inj h
    obtain ⟨rest, hrest, hsolid, hnone⟩ := ih (congrArg₂ Tokens.mk rfl hstray)
    obtain ⟨gap, rfl, hgap, rfl⟩ := exists_gap hskip
    have hcut := (lexeme?_append hread).1
    rw [hcut] at hread ⊢
    exact ⟨rest, hrest.cons hgap hread, hsolid, hnone⟩

/-- Before a token stand those that come first, and it is the lexeme read behind them. -/
theorem exists_token {afterQuote : Bool} {p : Position} {text : List Char}
    {before more : List Token} {token : Token} {stray : Option (Char × Position)}
    (h : Tokens.scan afterQuote p text = ⟨before ++ token :: more, stray⟩) :
    ∃ rest,
      ReadUpTo afterQuote p text before token.span.start (token.lexeme.text ++ rest) ∧
      lexeme? (endsInQuote afterQuote before) (token.lexeme.text ++ rest) =
        some (token.lexeme, rest) := by
  fun_induction Tokens.scan afterQuote p text generalizing before with
  | case1 => simp at h
  | case2 => simp at h
  | case3 afterQuote p text start d behind hskip lexeme tail hread stop =>
    rename_i ih
    obtain ⟨htokens, hstray⟩ := Tokens.mk.inj h
    obtain ⟨gap, rfl, hgap, rfl⟩ := exists_gap hskip
    have hcut := (lexeme?_append hread).1
    rw [hcut] at hread ⊢
    cases before with
    | nil =>
      obtain ⟨rfl, -⟩ := List.cons.inj htokens
      exact ⟨tail, readUpTo_trivia hgap, hread⟩
    | cons first before =>
      obtain ⟨rfl, hmore⟩ := List.cons.inj htokens
      obtain ⟨rest, hrest, htoken⟩ := ih (congrArg₂ Tokens.mk hmore hstray)
      exact ⟨rest, hrest.cons hgap hread, htoken⟩

/-! ## What a fault is about -/

/-- The fault is about what begins with this character in the source. -/
inductive SourceFault.Concerns (source : List Char) : SourceFault → Char → Prop
  /-- Behind tokens that some program begins with, the character begins neither trivia nor a
  token. -/
  | character {tokens : List Token} {place : Position} {c : Char} {rest : List Char}
    (read : ReadUpTo false .origin source tokens place (c :: rest)) (viable : Viable tokens)
    (solid : skipTrivia false place (c :: rest) = (place, c :: rest))
    (nothing : lexeme? (endsInQuote false tokens) (c :: rest) = none) :
    Concerns source (.unexpectedCharacter c place) c
  /-- Some program begins with the tokens before the token, and none goes on with it. -/
  | token {before : List Token} {token : Token} {c : Char} {rest : List Char}
    (read : ReadUpTo false .origin source before token.span.start (token.lexeme.text ++ rest))
    (lexeme : lexeme? (endsInQuote false before) (token.lexeme.text ++ rest) =
      some (token.lexeme, rest))
    (viable : Viable before) (refused : ¬ Viable (before ++ [token]))
    (first : token.lexeme.text.head? = some c) :
    Concerns source (.unexpectedToken token.lexeme.text token.span.start) c
  /-- Some program begins with the tokens of the source, whose last this is, and they are none. -/
  | ending {before : List Token} {last : Token} {c : Char} {rest : List Char}
    (read : ReadUpTo false .origin source before last.span.start (last.lexeme.text ++ rest))
    (lexeme : lexeme? (endsInQuote false before) (last.lexeme.text ++ rest) =
      some (last.lexeme, rest))
    (whole : Tokens.ofText source = ⟨before ++ [last], none⟩)
    (viable : Viable (before ++ [last]))
    (unfinished : ∀ d : Derivation, d.tokens ≠ before ++ [last])
    (first : last.lexeme.text.head? = some c) :
    Concerns source (.unexpectedEnd last.span.start) c

theorem exists_first {afterQuote : Bool} {lexeme : Lexeme} {rest : List Char}
    (h : lexeme? afterQuote (lexeme.text ++ rest) = some (lexeme, rest)) :
    ∃ c, lexeme.text.head? = some c := by
  obtain ⟨c, text, htext⟩ := List.exists_cons_of_ne_nil (lexeme?_append h).2
  exact ⟨c, congrArg List.head? htext⟩

/-- What makes no statements does so for what begins with some character. -/
theorem exists_concern {source : List Char} {fault : SourceFault}
    (h : assemble (Tokens.ofText source) = .error fault) : ∃ c, fault.Concerns source c := by
  unfold assemble at h
  split at h
  · rename_i token hrun
    cases h
    obtain ⟨before, more, htokens, hviable, hrefused⟩ := exists_refused hrun
    obtain ⟨rest, hread, hlexeme⟩ := exists_token (congrArg₂ Tokens.mk htokens rfl)
    obtain ⟨c, hc⟩ := exists_first hlexeme
    exact ⟨c, .token hread hlexeme hviable hrefused hc⟩
  · rename_i taken hrun
    have hviable := viable_iff.2 ⟨taken, hrun⟩
    split at h
    · rename_i c place hstray
      cases h
      obtain ⟨rest, hread, hsolid, hnothing⟩ := exists_stray (congrArg₂ Tokens.mk rfl hstray)
      exact ⟨c, .character hread hviable hsolid hnothing⟩
    · cases h
    · rename_i hstray hfinish
      have hwhole : Tokens.ofText source = ⟨(Tokens.ofText source).tokens, none⟩ :=
        congrArg₂ Tokens.mk rfl hstray
      have hunfinished := not_derived_of_finish? hrun hfinish
      rcases List.eq_nil_or_concat (Tokens.ofText source).tokens with hnil | ⟨before, last, hlast⟩
      · exact absurd hnil.symm (hunfinished ⟨[]⟩)
      · rw [List.concat_eq_append] at hlast
        rw [hlast] at hwhole hviable hunfinished h
        obtain ⟨rest, hread, hlexeme⟩ := exists_token hwhole
        obtain ⟨c, hc⟩ := exists_first hlexeme
        rw [List.getLast?_concat] at h
        cases h
        exact ⟨c, .ending hread hlexeme hwhole hviable hunfinished hc⟩

/-- Only a literal is at fault in a source whose tokens make statements. -/
theorem exists_concern_of_parse {names : CharacterNames} {file : String} {source : List Char}
    {fault : SourceFault} {p : Position} (h : parse names file source = .error fault)
    (hp : p ∈ fault.position?) : ∃ c, fault.Concerns source c := by
  cases hassemble : assemble (Tokens.ofText source) with
  | error cause =>
    rw [parse_of_assemble_error names file hassemble] at h
    cases h
    exact exists_concern hassemble
  | ok statements =>
    rw [parse_of_assemble names file hassemble] at h
    cases hevaluate : statements.mapM (Statement.evaluateLiterals names) with
    | error literal =>
      rw [hevaluate] at h
      cases h
      cases hp
    | ok evaluated =>
      rw [hevaluate] at h
      cases h

/-! ## Lines and columns -/

def sourceLines (source : List Char) : List (List Char) := Text.split ['\n'] source

/-- The position is the place of this character on this line of the source. -/
structure Position.Marks (p : Position) (source row : List Char) (c : Char) : Prop where
  line_pos : 1 ≤ p.line
  line_le : p.line ≤ (sourceLines source).length
  line_eq : (sourceLines source)[p.line - 1]? = some row
  column_pos : 1 ≤ p.column
  column_le : p.column ≤ row.length
  column_eq : row[p.column - 1]? = some c

/-- A place is on the last line of the text before it, behind the characters there. -/
theorem Position.exists_lines (head : List Char) :
    ∃ lines last, sourceLines head = lines ++ [last] ∧
      Position.origin.after head = ⟨lines.length + 1, last.length + 1⟩ := by
  induction head using List.reverseRecOn with
  | nil => exact ⟨[], [], rfl, rfl⟩
  | append_singleton head c ih =>
    obtain ⟨lines, last, hlines, hplace⟩ := ih
    rw [Position.after_append, hplace, Position.after_cons, Position.after_nil]
    by_cases hc : c = '\n'
    · have hsplit := Text.split_append_cons '\n' head []
      refine ⟨lines ++ [last], [], ?_, by simp [Position.next, hc]⟩
      rw [hc, sourceLines, hsplit, ← sourceLines, hlines, Text.split_nil]
    · have hpiece : Text.split ['\n'] [c] = [[c]] :=
        Text.split_of_not_mem '\n' (by simpa using Ne.symm hc)
      refine ⟨lines, last ++ [c], Text.split_append '\n' hlines hpiece, ?_⟩
      simp [Position.next, hc]

theorem Position.marks_after (head rest : List Char) {c : Char} (h : c ≠ '\n') :
    ∃ line, (Position.origin.after head).Marks (head ++ c :: rest) line c := by
  obtain ⟨lines, last, hlines, hplace⟩ := Position.exists_lines head
  obtain ⟨piece, more, hrest⟩ := List.exists_cons_of_ne_nil (Text.split_ne_nil ['\n'] rest)
  have hfirst : Text.split ['\n'] (c :: rest) = (c :: piece) :: more := by
    rw [Text.split_cons, if_neg (Ne.symm h), hrest, List.modifyHead_cons]
  have hwhole : sourceLines (head ++ c :: rest) = lines ++ (last ++ c :: piece) :: more :=
    Text.split_append '\n' hlines hfirst
  rw [hplace]
  refine ⟨last ++ c :: piece, by simp, ?_, ?_, by simp, ?_, ?_⟩
  · simp [hwhole]
  · simp [hwhole]
  · simp
  · simp

theorem ReadUpTo.exists_marks {source rest : List Char} {tokens : List Token} {place : Position}
    {c : Char} (h : ReadUpTo false .origin source tokens place (c :: rest))
    (hc : isBlank c = false) : ∃ line, place.Marks source line c := by
  obtain ⟨head, rfl, rfl, -⟩ := h
  refine Position.marks_after head rest ?_
  rintro rfl
  cases hc

theorem ReadUpTo.exists_marks_of_lexeme {afterQuote : Bool} {source rest : List Char}
    {tokens : List Token} {place : Position} {lexeme : Lexeme} {c : Char}
    (h : ReadUpTo false .origin source tokens place (lexeme.text ++ rest))
    (hread : lexeme? afterQuote (lexeme.text ++ rest) = some (lexeme, rest))
    (hc : lexeme.text.head? = some c) : ∃ line, place.Marks source line c := by
  obtain ⟨text, htext⟩ := List.head?_eq_some_iff.1 hc
  rw [htext, List.cons_append] at h hread
  exact h.exists_marks (not_isBlank_of_skipTrivia (skipTrivia_of_lexeme hread place))

/-- A fault is placed at the character that it is about. -/
theorem SourceFault.Concerns.exists_marks {source : List Char} {fault : SourceFault} {c : Char}
    (h : fault.Concerns source c) {p : Position} (hp : p ∈ fault.position?) :
    ∃ line, p.Marks source line c := by
  cases h with
  | character read viable solid nothing =>
    cases hp
    exact read.exists_marks (not_isBlank_of_skipTrivia solid)
  | token read lexeme viable refused first =>
    cases hp
    exact read.exists_marks_of_lexeme lexeme first
  | ending read lexeme whole viable unfinished first =>
    cases hp
    exact read.exists_marks_of_lexeme lexeme first

end ModuleLoader.Script

namespace ModuleLoader

open Script (SourceFault Position Location)

/-! ## The end of a message -/

/-- What stands in front of a line in a message. -/
def gutter (number : Nat) : List Char := Nat.toDigits 10 number ++ [' ', '|', ' ']

/-- The message ends with the line behind its number, and below it with one caret, which stands
under the column. -/
def Underlines (message : List Char) (number : Nat) (line : List Char) (column : Nat) : Prop :=
  ∃ beginning margin,
    Text.split ['\n'] message = beginning ++ [gutter number ++ line, margin ++ ['^']] ∧
    '^' ∉ margin ∧ margin.length = (gutter number).length + (column - 1)

theorem lineFeed_notMem_gutter (number : Nat) : '\n' ∉ gutter number := by
  intro hmem
  rcases List.mem_append.1 hmem with hmem | hmem
  · exact absurd (Script.isDigit_of_mem_digits hmem) (by decide)
  · exact absurd hmem (by decide)

namespace Diagnostic

theorem lineNumber_ofPosition (file : String) (p : Position) :
    lineNumber (.ofPosition file p) = Nat.toDigits 10 p.line := by
  rcases Script.repr_cases p.line with ⟨-, hdigits⟩ | ⟨hneg, -⟩
  · exact hdigits
  · omega

theorem sourceLine?_eq {source : String} {row : List Char} {line : Int} (hpos : 1 ≤ line)
    (hrow : (Script.sourceLines source.toList)[(line - 1).toNat]? = some row) :
    sourceLine? (some source) line = some row := by
  rw [sourceLine?, if_neg (Int.not_lt.2 hpos)]
  exact hrow

theorem sourceLine?_of_marks {source line : List Char} {p : Position} {c : Char}
    (h : p.Marks source line c) :
    sourceLine? (some (String.ofList source)) p.line = some line := by
  have hpos := h.line_pos
  have hindex : ((p.line : Int) - 1).toNat = p.line - 1 := by omega
  refine sourceLine?_eq (by omega) ?_
  rw [hindex, String.toList_ofList]
  exact h.line_eq

theorem mark_ofPosition {file : String} {p : Position} (h : 1 ≤ p.line) :
    mark (.ofPosition file p) = blanks (p.column - 1) ++ ['^'] := by
  have hend : (0 : Int) ≠ p.line := by omega
  have hwidth : markWidth (.ofPosition file p) = 1 := by
    rw [markWidth, if_neg (fun hspan => hend hspan.1)]
  have hcolumn : ((p.column : Int) - 1).toNat = p.column - 1 := by omega
  rw [mark, hwidth, ← hcolumn]
  rfl

def margin (p : Position) : List Char :=
  blanks ((Nat.toDigits 10 p.line).length + 1) ++ ['|', ' '] ++ blanks (p.column - 1)

theorem notMem_margin {c : Char} (h : c ≠ ' ' ∧ c ≠ '|') (p : Position) : c ∉ margin p := by
  simp [margin, blanks, h]

theorem length_margin (p : Position) :
    (margin p).length = (gutter p.line).length + (p.column - 1) := by
  simp only [margin, blanks, gutter, List.length_append, List.length_replicate, List.length_cons,
    List.length_nil]

theorem excerpt_ofPosition {file : String} {p : Position} (h : 1 ≤ p.line) (line : List Char) :
    (excerpt (.ofPosition file p) line).map (renderLine false) =
      [blanks ((Nat.toDigits 10 p.line).length + 1) ++ ['|'], gutter p.line ++ line,
        margin p ++ ['^']] := by
  rw [excerpt, lineNumber_ofPosition, mark_ofPosition h]
  simp [renderLine, Piece.render, gutter, margin]

/-- The last two lines of a diagnostic about a place show its line and mark its column. -/
theorem exists_lines (file message : String) (code : Option String) {source line : List Char}
    {p : Position} {c : Char} (h : p.Marks source line c) :
    ∃ front, front ≠ [] ∧
      (lines ⟨message, some (.ofPosition file p), some (String.ofList source), code⟩).map
        (renderLine false) = front ++ [gutter p.line ++ line, margin p ++ ['^']] := by
  let d : Diagnostic := ⟨message, some (.ofPosition file p), some (String.ofList source), code⟩
  have hsource : sourceLine? d.source (Location.ofPosition file p).line = some line :=
    sourceLine?_of_marks h
  have hlines : d.lines = d.header :: pointer (.ofPosition file p) ::
      excerpt (.ofPosition file p) line := by
    simp only [lines, d, hsource]
  refine ⟨[renderLine false d.header, renderLine false (pointer (.ofPosition file p)),
    blanks ((Nat.toDigits 10 p.line).length + 1) ++ ['|']], List.cons_ne_nil _ _, ?_⟩
  rw [hlines, List.map_cons, List.map_cons, excerpt_ofPosition h.line_pos]
  rfl

theorem underlines_render {file message : String} {source line : List Char} {p : Position}
    {c : Char} {code : Option String} (h : p.Marks source line c) :
    Underlines (render false
      ⟨message, some (.ofPosition file p), some (String.ofList source), code⟩).toList
      p.line line p.column := by
  obtain ⟨front, hfront, hlines⟩ := exists_lines file message code h
  have hline : '\n' ∉ line := Text.not_mem_of_mem_split '\n' (List.mem_of_getElem? h.line_eq)
  have hlast : ∀ piece ∈ [gutter p.line ++ line, margin p ++ ['^']], '\n' ∉ piece := by
    simp [lineFeed_notMem_gutter, hline, notMem_margin]
  refine ⟨Text.split ['\n'] (Text.join ['\n'] front), margin p, ?_, notMem_margin (by decide) p,
    length_margin p⟩
  -- The lines in front may hold line feeds, those of a file name.
  rw [render, String.toList_ofList, hlines, Text.join_append _ hfront (List.cons_ne_nil _ _),
    List.append_assoc, List.singleton_append, Text.split_append_cons,
    Text.split_join '\n' (List.cons_ne_nil _ _) hlast]

end Diagnostic

/-! ## Reports -/

/-- A source is a program, or reading it stops with a syntax report. Where the report has a place,
the place is that of the first character of what is at fault, in a line of the source, and without
colours the wording ends with that line and with a caret under that character. -/
theorem readProgram_points (file : String) (source : List Char) (m : Machine) :
    (∃ program, ((readProgram file source).on m).1 = .ok program) ∨
    ∃ (stop : Stop) (fault : SourceFault), ((readProgram file source).on m).1 = .error stop ∧
      stop.report = .scriptSyntax fault.message file
        (fault.position?.map (Location.ofPosition file)) (some (String.ofList source)) ∧
      ∀ p ∈ fault.position?, ∃ line c, fault.Concerns source c ∧ p.Marks source line c ∧
        Underlines (stop.report.message false).toList p.line line p.column := by
  cases hparse : Script.parse m.system.names file source with
  | ok program =>
    refine Or.inl ⟨program, ?_⟩
    rw [readProgram, Action.on_get_bind, hparse]
    rfl
  | error fault =>
    refine Or.inr ⟨.fault (.malformed file source fault), fault, ?_, rfl, ?_⟩
    · rw [readProgram, Action.on_get_bind, hparse]
      dsimp only
      split <;> rfl
    · intro p hp
      obtain ⟨c, hconcerns⟩ := Script.exists_concern_of_parse hparse hp
      obtain ⟨line, hmarks⟩ := hconcerns.exists_marks hp
      refine ⟨line, c, hconcerns, hmarks, ?_⟩
      have hlocation : fault.position?.map (Location.ofPosition file) =
          some (.ofPosition file p) := congrArg (Option.map _) hp
      rw [Stop.report, Fault.report, hlocation]
      exact Diagnostic.underlines_render hmarks

end ModuleLoader
