import ModuleLoader.Proofs.Pointing

/-!
# The layout of diagnostics

The line of the source and the marks below it stand behind gutters of one width, and the marks are
carets under the columns of the construct. Colour adds control sequences and nothing else.

* `withoutSequences` : a text with its control sequences deleted;
* `Decorates` : a text that holds another one and control sequences (`Decorates.append`,
  `decorates_renderLine`);
* `Diagnostic.Lacks` : a character that no text of a diagnostic holds (`notMem_lines`);
* `Diagnostic.Aligned` : five lines, of which the last marks columns of the one before
  (`aligned_lines`);
* `render_aligned` : plain diagnostics are aligned, and coloured ones are decorated plain ones.
-/

namespace ModuleLoader

/-! ## Control sequences -/

/-- The character can stand among the parameters of a control sequence. -/
def isParameter (c : Char) : Bool := c.isDigit || c == ';'

/-- What follows the control sequence that a text begins with: an escape, a bracket, parameters and
the letter m. -/
def afterSequence? : List Char → Option (List Char)
  | '\x1b' :: '[' :: rest =>
    match rest.dropWhile isParameter with
    | 'm' :: after => some after
    | _ => none
  | _ => none

theorem afterSequence?_length_lt {text after : List Char} (h : afterSequence? text = some after) :
    after.length < text.length := by
  unfold afterSequence? at h
  split at h
  · rename_i rest
    split at h
    · rename_i later hdrop
      obtain rfl := Option.some.inj h
      have hsuffix := (List.dropWhile_suffix isParameter (l := rest)).length_le
      rw [hdrop] at hsuffix
      simp only [List.length_cons] at hsuffix ⊢
      omega
    · cases h
  · cases h

def withoutSequences : List Char → List Char
  | [] => []
  | c :: rest =>
    match _ : afterSequence? (c :: rest) with
    | some after => withoutSequences after
    | none => c :: withoutSequences rest
termination_by text => text.length
decreasing_by
  · exact afterSequence?_length_lt ‹_›
  · exact Nat.lt_succ_self _

@[simp] theorem withoutSequences_nil : withoutSequences [] = [] := by
  rw [withoutSequences]

/-- A text loses the control sequence that it begins with, or keeps its first character. -/
theorem withoutSequences_cons (c : Char) (rest : List Char) :
    withoutSequences (c :: rest) = match afterSequence? (c :: rest) with
      | some after => withoutSequences after
      | none => c :: withoutSequences rest := by
  rw [withoutSequences]
  split <;> simp only [*]

theorem withoutSequences_cons_of_ne {c : Char} (h : c ≠ '\x1b') (rest : List Char) :
    withoutSequences (c :: rest) = c :: withoutSequences rest := by
  have hnone : afterSequence? (c :: rest) = none := by
    unfold afterSequence?
    split
    · rename_i heq
      exact absurd (List.cons.inj heq).1 h
    · rfl
  rw [withoutSequences_cons, hnone]

theorem withoutSequences_controlSequence {parameter : List Char}
    (h : parameter.all isParameter) (rest : List Char) :
    withoutSequences (controlSequence parameter ++ rest) = withoutSequences rest := by
  have htext : controlSequence parameter ++ rest =
      '\x1b' :: '[' :: (parameter ++ 'm' :: rest) := by
    simp [controlSequence]
  have hdrop : (parameter ++ 'm' :: rest).dropWhile isParameter = 'm' :: rest := by
    rw [List.dropWhile_append_of_pos (List.all_eq_true.1 h)]
    rfl
  have hafter : afterSequence? ('\x1b' :: '[' :: (parameter ++ 'm' :: rest)) = some rest := by
    simp only [afterSequence?, hdrop]
  rw [htext, withoutSequences_cons, hafter]

/-- The text is the plain one with control sequences, whatever follows it. -/
def Decorates (text plain : List Char) : Prop :=
  ∀ rest, withoutSequences (text ++ rest) = plain ++ withoutSequences rest

namespace Decorates
variable {text plain other bare : List Char}

theorem withoutSequences_eq (h : Decorates text plain) : withoutSequences text = plain := by
  have hwhole := h []
  rwa [List.append_nil, withoutSequences_nil, List.append_nil] at hwhole

theorem nil : Decorates [] [] := fun _ => rfl

theorem append (h : Decorates text plain) (h' : Decorates other bare) :
    Decorates (text ++ other) (plain ++ bare) := by
  intro rest
  rw [List.append_assoc, h, h', List.append_assoc]

theorem of_notMem (h : '\x1b' ∉ text) : Decorates text text := by
  intro rest
  induction text with
  | nil => rfl
  | cons c text ih =>
    rw [List.mem_cons, not_or] at h
    rw [List.cons_append, withoutSequences_cons_of_ne (Ne.symm h.1), ih h.2, List.cons_append]

theorem controlSequence {parameter : List Char} (h : parameter.all isParameter) :
    Decorates (controlSequence parameter) [] :=
  withoutSequences_controlSequence h

theorem flatMap {α : Type} {f g : α → List Char} {items : List α}
    (h : ∀ item ∈ items, Decorates (f item) (g item)) :
    Decorates (items.flatMap f) (items.flatMap g) := by
  induction items with
  | nil => exact nil
  | cons item items ih =>
    rw [List.flatMap_cons, List.flatMap_cons]
    exact (h item List.mem_cons_self).append (ih (fun i hi => h i (List.mem_cons_of_mem _ hi)))

theorem join {α : Type} {f g : α → List Char} {items : List α}
    (h : ∀ item ∈ items, Decorates (f item) (g item)) :
    Decorates (Text.join ['\n'] (items.map f)) (Text.join ['\n'] (items.map g)) := by
  induction items with
  | nil => exact nil
  | cons item items ih =>
    have hfirst := h item List.mem_cons_self
    cases items with
    | nil => simpa [Text.join] using hfirst
    | cons next items =>
      have hrest := ih (fun i hi => h i (List.mem_cons_of_mem _ hi))
      have hfeed : Decorates ['\n'] ['\n'] := of_notMem (by decide)
      have hne (f : α → List Char) : (next :: items).map f ≠ [] := List.cons_ne_nil _ _
      rw [List.map_cons, List.map_cons (f := g), Text.join_cons (hne f), Text.join_cons (hne g)]
      exact (hfirst.append hfeed).append hrest

end Decorates

theorem decorates_sequence (style : Style) : Decorates style.sequence [] := by
  cases style <;> exact .controlSequence rfl

theorem decorates_render {piece : Piece} (h : '\x1b' ∉ piece.text) :
    Decorates (piece.render true) (piece.render false) := by
  have hplain : piece.render false = piece.text := rfl
  rw [hplain]
  unfold Piece.render
  split
  · have hstyles : Decorates (piece.styles.flatMap Style.sequence) [] := by
      have hnothing : piece.styles.flatMap (fun _ => ([] : List Char)) = [] := by simp
      rw [← hnothing]
      exact .flatMap (fun style _ => decorates_sequence style)
    have hreset : Decorates (controlSequence ['0']) [] := .controlSequence rfl
    simpa using (hstyles.append (.of_notMem h)).append hreset
  · exact .of_notMem h

theorem decorates_renderLine {line : List Piece} (h : ∀ piece ∈ line, '\x1b' ∉ piece.text) :
    Decorates (renderLine true line) (renderLine false line) :=
  .flatMap (fun piece hpiece => decorates_render (h piece hpiece))

/-! ## What the layout is made of -/

/-- The character is one of those that control a terminal, line feeds and escapes among them. -/
def isControl (c : Char) : Bool := c.toNat < 32

theorem notMem_of_isControl {x : Char} (hx : isControl x) {text : List Char}
    (h : text.any isControl = false) : x ∉ text :=
  fun hmem => List.any_eq_false.1 h x hmem hx

theorem any_isControl_replicate {c : Char} (h : isControl c = false) (count : Nat) :
    (List.replicate count c).any isControl = false := by
  refine List.any_eq_false.2 (fun x hx => ?_)
  rw [List.eq_of_mem_replicate hx, h]
  exact Bool.false_ne_true

theorem any_isControl_digits (n : Nat) : (Nat.toDigits 10 n).any isControl = false := by
  refine List.any_eq_false.2 (fun c hc => ?_)
  have hdigit : 48 ≤ c.toNat := (Char.isDigit_iff_toNat.1 (Script.isDigit_of_mem_digits hc)).1
  simp only [isControl, decide_eq_true_eq]
  omega

theorem any_isControl_int (n : Int) : (toString n).toList.any isControl = false := by
  rcases Script.repr_cases n with ⟨-, htext⟩ | ⟨-, htext⟩
  · exact htext ▸ any_isControl_digits n.natAbs
  · exact htext ▸ any_isControl_digits n.natAbs

namespace Diagnostic

/-- Neither the message nor the code nor the name of the file holds the character. -/
structure Lacks (d : Diagnostic) (x : Char) : Prop where
  message : x ∉ d.message.toList
  code : ∀ text ∈ d.code, x ∉ text.toList
  file : ∀ location ∈ d.location, x ∉ location.file.toList

section Control
variable {x : Char} (hx : isControl x)

include hx

theorem notMem_blanks (count : Nat) : x ∉ blanks count :=
  notMem_of_isControl hx (any_isControl_replicate rfl count)

theorem notMem_codeText {code : Option String} (h : ∀ text ∈ code, x ∉ text.toList) :
    x ∉ codeText code := by
  have hopen : x ∉ ['['] := notMem_of_isControl hx rfl
  have hclose : x ∉ [']'] := notMem_of_isControl hx rfl
  cases code with
  | none => exact List.not_mem_nil
  | some text =>
    unfold codeText
    dsimp only
    split
    · exact List.not_mem_nil
    · exact List.not_mem_append (List.not_mem_append hopen (h text rfl)) hclose

theorem notMem_header {d : Diagnostic} (h : d.Lacks x) : ∀ piece ∈ d.header, x ∉ piece.text := by
  have herror : x ∉ "error".toList := notMem_of_isControl hx rfl
  have hcolon : x ∉ [':', ' '] := notMem_of_isControl hx rfl
  refine List.forall_mem_cons.2 ⟨?_, List.forall_mem_singleton.2 ?_⟩
  · exact List.not_mem_append herror (notMem_codeText hx h.code)
  · exact List.not_mem_append hcolon h.message

theorem notMem_text {location : Script.Location} (h : x ∉ location.file.toList) :
    x ∉ location.text.toList := by
  have hcolon : x ∉ ":".toList := notMem_of_isControl hx rfl
  have hint (n : Int) : x ∉ (toString n).toList := notMem_of_isControl hx (any_isControl_int n)
  simp only [Script.Location.text, String.toList_append]
  exact List.not_mem_append (List.not_mem_append (List.not_mem_append
    (List.not_mem_append h hcolon) (hint _)) hcolon) (hint _)

theorem notMem_pointer {location : Script.Location} (h : x ∉ location.file.toList) :
    ∀ piece ∈ pointer location, x ∉ piece.text := by
  have harrow : x ∉ "--> ".toList := notMem_of_isControl hx rfl
  refine List.forall_mem_cons.2 ⟨?_, List.forall_mem_singleton.2 (notMem_text hx h)⟩
  exact List.not_mem_append (notMem_blanks hx _) harrow

theorem notMem_mark (location : Script.Location) : x ∉ mark location := by
  have hcarets (count : Nat) : x ∉ List.replicate count '^' :=
    notMem_of_isControl hx (any_isControl_replicate rfl count)
  exact List.not_mem_append (notMem_blanks hx _) (hcarets _)

theorem notMem_excerpt (location : Script.Location) {row : List Char} (h : x ∉ row) :
    ∀ line ∈ excerpt location row, ∀ piece ∈ line, x ∉ piece.text := by
  have hnumber : x ∉ lineNumber location := notMem_of_isControl hx (any_isControl_int _)
  have hrule : x ∉ ['|'] := notMem_of_isControl hx rfl
  have hbar : x ∉ " | ".toList := notMem_of_isControl hx rfl
  have hedge : x ∉ "| ".toList := notMem_of_isControl hx rfl
  have hmargin := notMem_blanks hx ((lineNumber location).length + 1)
  refine List.forall_mem_cons.2 ⟨?_, List.forall_mem_cons.2 ⟨?_, List.forall_mem_singleton.2 ?_⟩⟩
  · exact List.forall_mem_singleton.2 (List.not_mem_append hmargin hrule)
  · exact List.forall_mem_cons.2
      ⟨List.not_mem_append hnumber hbar, List.forall_mem_singleton.2 h⟩
  · exact List.forall_mem_cons.2
      ⟨List.not_mem_append hmargin hedge, List.forall_mem_singleton.2 (notMem_mark hx location)⟩

theorem notMem_lines {d : Diagnostic} (h : d.Lacks x)
    (hrow : ∀ location ∈ d.location, ∀ row ∈ sourceLine? d.source location.line, x ∉ row) :
    ∀ line ∈ d.lines, ∀ piece ∈ line, x ∉ piece.text := by
  unfold lines
  split
  · have harrow : x ∉ " --> ".toList := notMem_of_isControl hx rfl
    have hunknown : x ∉ "<unknown location>".toList := notMem_of_isControl hx rfl
    refine List.forall_mem_cons.2 ⟨notMem_header hx h, List.forall_mem_singleton.2 ?_⟩
    exact List.forall_mem_cons.2 ⟨harrow, List.forall_mem_singleton.2 hunknown⟩
  · rename_i location hlocation
    have hpointer := notMem_pointer hx (h.file location hlocation)
    split
    · exact List.forall_mem_cons.2 ⟨notMem_header hx h, List.forall_mem_singleton.2 hpointer⟩
    · rename_i row hsource
      exact List.forall_mem_cons.2 ⟨notMem_header hx h, List.forall_mem_cons.2
        ⟨hpointer, notMem_excerpt hx location (hrow location hlocation row hsource)⟩⟩

end Control

theorem notMem_renderLine {x : Char} {line : List Piece} (h : ∀ piece ∈ line, x ∉ piece.text) :
    x ∉ renderLine false line := by
  intro hmem
  obtain ⟨piece, hpiece, hmem⟩ := List.mem_flatMap.1 hmem
  exact h piece hpiece hmem

theorem exists_of_mem_sourceLine {source : Option String} {line : Int} {row : List Char}
    (h : row ∈ sourceLine? source line) :
    ∃ text ∈ source, row ∈ Text.split ['\n'] text.toList := by
  unfold sourceLine? at h
  split at h
  · cases h
  · obtain ⟨text, htext, hrow⟩ := Option.bind_eq_some_iff.1 h
    exact ⟨text, htext, List.mem_of_getElem? hrow⟩

theorem notMem_sourceLine {x : Char} {source : Option String} (h : ∀ text ∈ source, x ∉ text.toList)
    {line : Int} {row : List Char} (hrow : row ∈ sourceLine? source line) : x ∉ row := by
  intro hmem
  obtain ⟨text, htext, hsplit⟩ := exists_of_mem_sourceLine hrow
  refine h text htext ?_
  rw [← Text.join_split (List.cons_ne_nil _ _) text.toList]
  exact Text.mem_join_of_mem hsplit hmem

theorem lineFeed_notMem_sourceLine {source : Option String} {line : Int} {row : List Char}
    (h : row ∈ sourceLine? source line) : '\n' ∉ row := by
  obtain ⟨text, -, hsplit⟩ := exists_of_mem_sourceLine h
  exact Text.not_mem_of_mem_split '\n' hsplit

theorem lines_ne_nil (d : Diagnostic) : d.lines ≠ [] := by
  unfold lines
  split
  · exact List.cons_ne_nil _ _
  · split <;> exact List.cons_ne_nil _ _

/-! ## Alignment -/

/-- The column behind the last one that is marked: that behind the construct when it ends further
on in the same line, else the next one. -/
def markEnd (location : Script.Location) : Int :=
  if location.endLine = location.line ∧ location.column < location.endColumn then
    location.endColumn
  else location.column + 1

theorem markWidth_eq (location : Script.Location) :
    (markWidth location : Int) = markEnd location - location.column := by
  unfold markWidth markEnd
  split <;> omega

/-- What stands in front of the line of the source: its number. -/
def numberGutter (location : Script.Location) : List Char :=
  lineNumber location ++ [' ', '|', ' ']

def blankGutter (location : Script.Location) : List Char :=
  blanks (lineNumber location).length ++ [' ', '|', ' ']

/-- Five lines, of which the fourth is a line of the source and the fifth is made of marks below it.
The gutters in front of both are of one width, and the marks are blanks and carets, which stand
under the columns of the construct. -/
def Aligned (lines : List (List Char)) (location : Script.Location) (row : List Char) : Prop :=
  ∃ heading place rule marks : List Char,
    lines = [heading, place, rule, numberGutter location ++ row, blankGutter location ++ marks] ∧
      (blankGutter location).length = (numberGutter location).length ∧
      (∀ c ∈ marks, c = ' ' ∨ c = '^') ∧
      ∀ i : Nat, (blankGutter location ++ marks)[i]? = some '^' ↔
        ∃ column : Int, location.column ≤ column ∧ column < markEnd location ∧
          (i : Int) = (numberGutter location).length + (column - 1)

theorem length_blankGutter (location : Script.Location) :
    (blankGutter location).length = (numberGutter location).length := by
  simp only [blankGutter, numberGutter, blanks, List.length_append, List.length_replicate]

theorem excerpt_plain (location : Script.Location) (row : List Char) :
    (excerpt location row).map (renderLine false) =
      [blanks ((lineNumber location).length + 1) ++ ['|'], numberGutter location ++ row,
        blankGutter location ++ mark location] := by
  have hblanks : blanks ((lineNumber location).length + 1) ++ "| ".toList =
      blankGutter location := by
    simp [blanks, blankGutter, List.replicate_succ']
  rw [← hblanks]
  simp [excerpt, renderLine, Piece.render, numberGutter]

/-- Behind a text without carets, a row of carets is where the carets are. -/
theorem getElem?_carets {front : List Char} (h : '^' ∉ front) (width i : Nat) :
    (front ++ List.replicate width '^')[i]? = some '^' ↔
      front.length ≤ i ∧ i < front.length + width := by
  rw [List.getElem?_append]
  split
  · have hne : front[i]? ≠ some '^' := fun heq => h (List.mem_of_getElem? heq)
    simp only [hne, false_iff]
    omega
  · rw [List.getElem?_replicate]
    split
    · simp only [true_iff]
      omega
    · simp only [reduceCtorEq, false_iff]
      omega

theorem lines_eq {d : Diagnostic} {location : Script.Location} {row : List Char}
    (hlocation : d.location = some location)
    (hrow : sourceLine? d.source location.line = some row) :
    d.lines = d.header :: pointer location :: excerpt location row := by
  simp only [lines, hlocation, hrow]

/-- The carets stand under the columns of the construct. -/
theorem getElem?_mark {location : Script.Location} (hcolumn : 1 ≤ location.column) (i : Nat) :
    (blankGutter location ++ mark location)[i]? = some '^' ↔
      ∃ column : Int, location.column ≤ column ∧ column < markEnd location ∧
        (i : Int) = (numberGutter location).length + (column - 1) := by
  have hwidth := markWidth_eq location
  have hgutter := length_blankGutter location
  have hfree : '^' ∉ blankGutter location ++ blanks (location.column - 1).toNat := by
    simp [blankGutter, blanks]
  have hlength : (blankGutter location ++ blanks (location.column - 1).toNat).length =
      (numberGutter location).length + (location.column - 1).toNat := by
    rw [List.length_append, hgutter, blanks, List.length_replicate]
  rw [mark, ← List.append_assoc, getElem?_carets hfree, hlength]
  constructor
  · rintro ⟨hle, hlt⟩
    refine ⟨i - (numberGutter location).length + 1, ?_, ?_, ?_⟩ <;> omega
  · rintro ⟨column, hle, hlt, heq⟩
    omega

/-- The lines of a diagnostic about a column of a line in its source are aligned. -/
theorem aligned_lines {d : Diagnostic} {location : Script.Location} {row : List Char}
    (hlocation : d.location = some location)
    (hrow : sourceLine? d.source location.line = some row) (hcolumn : 1 ≤ location.column) :
    Aligned (d.lines.map (renderLine false)) location row := by
  rw [lines_eq hlocation hrow, List.map_cons, List.map_cons, excerpt_plain]
  refine ⟨_, _, _, mark location, rfl, length_blankGutter location, fun c hc => ?_,
    getElem?_mark hcolumn⟩
  rcases List.mem_append.1 hc with hc | hc
  · exact Or.inl (List.eq_of_mem_replicate hc)
  · exact Or.inr (List.eq_of_mem_replicate hc)

/-! ## Renderings -/

/-- The lines of a plain diagnostic are those of its layout, if no text that it shows holds a line
feed. -/
theorem split_render {d : Diagnostic} (h : d.Lacks '\n') :
    Text.split ['\n'] (d.render false).toList = d.lines.map (renderLine false) := by
  have hlines := notMem_lines (x := '\n') rfl h
    (fun _ _ _ hrow => lineFeed_notMem_sourceLine hrow)
  have hne : d.lines.map (renderLine false) ≠ [] := by simpa using lines_ne_nil d
  rw [render, String.toList_ofList]
  refine Text.split_join '\n' hne (fun text htext => ?_)
  obtain ⟨line, hline, rfl⟩ := List.mem_map.1 htext
  exact notMem_renderLine (hlines line hline)

/-- A coloured diagnostic is the plain one with control sequences, if no text that it is made of
holds an escape. -/
theorem decorates_diagnostic {d : Diagnostic} (h : d.Lacks '\x1b')
    (hsource : ∀ text ∈ d.source, '\x1b' ∉ text.toList) :
    Decorates (d.render true).toList (d.render false).toList := by
  have hlines := notMem_lines (x := '\x1b') rfl h
    (fun location _ row hrow => notMem_sourceLine hsource hrow)
  rw [render, render, String.toList_ofList, String.toList_ofList]
  exact .join (fun line hline => decorates_renderLine (hlines line hline))

end Diagnostic

/-- Without colours, a diagnostic about a column of a line of its source has five lines, and the
line of the source and the carets below it are aligned, whatever the number of the line and the
columns of the construct. With colours, it is the plain diagnostic and control sequences. -/
theorem render_aligned :
    (∀ (message source : String) (code : Option String) (location : Script.Location)
      (row : List Char),
      '\n' ∉ message.toList → (∀ text ∈ code, '\n' ∉ text.toList) → '\n' ∉ location.file.toList →
        1 ≤ location.line →
        (Script.sourceLines source.toList)[(location.line - 1).toNat]? = some row →
        1 ≤ location.column →
          Diagnostic.Aligned (Text.split ['\n']
            (Diagnostic.render false ⟨message, some location, some source, code⟩).toList)
            location row) ∧
      ∀ d : Diagnostic, d.Lacks '\x1b' → (∀ text ∈ d.source, '\x1b' ∉ text.toList) →
        withoutSequences (d.render true).toList = (d.render false).toList := by
  refine ⟨fun message source code location row hmessage hcode hfile hline hrow hcolumn => ?_,
    fun d h hsource => (Diagnostic.decorates_diagnostic h hsource).withoutSequences_eq⟩
  have hlacks : (⟨message, some location, some source, code⟩ : Diagnostic).Lacks '\n' :=
    ⟨hmessage, hcode, by rintro _ ⟨⟩; exact hfile⟩
  rw [Diagnostic.split_render hlacks]
  exact Diagnostic.aligned_lines rfl (Diagnostic.sourceLine?_eq hline hrow) hcolumn

/-- A construct of three columns in a line whose number has two digits. -/
def farDown : Diagnostic :=
  ⟨"bad", some ⟨"f.lps", 10, 6, 10, 9⟩, some "\n\n\n\n\n\n\n\n\nx := abc\n", some "S0001"⟩

theorem render_aligned_farDown :
    Diagnostic.Aligned (Text.split ['\n'] (farDown.render false).toList) ⟨"f.lps", 10, 6, 10, 9⟩
        "x := abc".toList ∧
      withoutSequences (farDown.render true).toList = (farDown.render false).toList := by
  obtain ⟨haligned, hdecorated⟩ := render_aligned
  constructor
  · exact haligned "bad" "\n\n\n\n\n\n\n\n\nx := abc\n" (some "S0001") ⟨"f.lps", 10, 6, 10, 9⟩ _
      (by decide) (by decide) (by decide) (by decide) (by decide) (by decide)
  · exact hdecorated farDown ⟨by decide, by decide, by decide⟩ (by decide)

end ModuleLoader
