import ModuleLoader.Proofs.Lexing
import ModuleLoader.Proofs.Places

/-!
# Texts that split into tokens

* `Trivia` : blanks and comments;
* `Scanned`, `scanned_iff` : a text that is tokens with trivia around them, and that it is what is
  scanned;
* `Scanned.relocate` : the same text in another place;
* `Scanned.append_line` : one text on the lines behind another;
* `Scanned.split` : the texts of the first and of the other tokens;
* `Scanned.inOrder` : the tokens stand one behind another.
-/

namespace ModuleLoader.Script

/-! ## Trivia -/

/-- The text is blanks and comments, read from inside a comment or not, and so is what follows. -/
inductive Trivia : Bool → List Char → Bool → Prop
  | nothing {inComment : Bool} : Trivia inComment [] inComment
  | comment {c : Char} {gap : List Char} {behind : Bool} (more : Trivia (c != '\n') gap behind) :
    Trivia true (c :: gap) behind
  | blank {c : Char} {gap : List Char} {behind : Bool} (blank : isBlank c)
    (more : Trivia false gap behind) : Trivia false (c :: gap) behind
  | slashes {gap : List Char} {behind : Bool} (more : Trivia true ('/' :: gap) behind) :
    Trivia false ('/' :: '/' :: gap) behind

theorem Trivia.append {first middle last : Bool} {gap more : List Char}
    (hgap : Trivia first gap middle) (hmore : Trivia middle more last) :
    Trivia first (gap ++ more) last := by
  induction hgap with
  | nothing => exact hmore
  | comment _ ih => exact .comment (ih hmore)
  | blank hblank _ ih => exact .blank hblank (ih hmore)
  | slashes _ ih => exact .slashes (ih hmore)

theorem Trivia.skip {first last : Bool} {gap : List Char} (h : Trivia first gap last)
    (p : Position) (text : List Char) :
    skipTrivia first p (gap ++ text) = skipTrivia last (p.after gap) text := by
  induction h generalizing p with
  | nothing => rfl
  | comment _ ih =>
    rw [List.cons_append, skipTrivia, ih, Position.after_cons]
  | blank hblank _ ih =>
    rw [List.cons_append, skipTrivia, if_pos hblank, ih, Position.after_cons]
  | slashes _ ih =>
    have hslash : ¬ isBlank '/' := by decide
    rw [List.cons_append, List.cons_append, skipTrivia, if_neg hslash, if_pos ⟨rfl, rfl⟩]
    exact ih (p.next '/')

/-- What is skipped is trivia, and behind it the text ends or something else begins. -/
theorem exists_trivia (inComment : Bool) (p : Position) (text : List Char) :
    ∃ gap behind, text = gap ++ (skipTrivia inComment p text).2 ∧ Trivia inComment gap behind ∧
      (skipTrivia inComment p text).1 = p.after gap ∧
      ((skipTrivia inComment p text).2 = [] ∨ behind = false) := by
  fun_induction skipTrivia inComment p text with
  | case1 inComment p => exact ⟨[], inComment, rfl, .nothing, rfl, Or.inl rfl⟩
  | case2 p c rest ih =>
    obtain ⟨gap, behind, htext, hgap, hplace, hend⟩ := ih
    exact ⟨c :: gap, behind, congrArg (c :: ·) htext, .comment hgap, hplace, hend⟩
  | case3 p c rest hblank ih =>
    obtain ⟨gap, behind, htext, hgap, hplace, hend⟩ := ih
    exact ⟨c :: gap, behind, congrArg (c :: ·) htext, .blank hblank hgap, hplace, hend⟩
  | case4 p c rest hblank hslashes ih =>
    obtain ⟨gap, behind, htext, hgap, hplace, hend⟩ := ih
    obtain ⟨rfl, hnext⟩ := hslashes
    cases hgap with
    | nothing =>
      rcases hend with hend | hend
      · rw [hend] at htext
        rw [htext] at hnext
        cases hnext
      · cases hend
    | @comment d gap behind hmore =>
      rw [htext] at hnext
      obtain rfl : d = '/' := Option.some.inj hnext
      exact ⟨'/' :: '/' :: gap, behind, congrArg ('/' :: ·) htext, .slashes (.comment hmore),
        hplace, hend⟩
  | case5 p c rest hblank hslashes => exact ⟨[], false, rfl, .nothing, rfl, Or.inr rfl⟩

theorem not_isBlank_of_beginsWord {c : Char} (h : beginsWord c) : isBlank c = false ∧ c ≠ '/' := by
  constructor
  · rw [Bool.eq_false_iff]
    intro hblank
    simp only [isBlank, Bool.or_eq_true, beq_iff_eq] at hblank
    rcases hblank with (((rfl | rfl) | rfl) | rfl) | rfl <;> exact absurd h (by decide)
  · rintro rfl
    exact absurd h (by decide)

/-- No trivia begins where a lexeme does. -/
theorem skipTrivia_of_lexeme {afterQuote : Bool} {text : List Char} {found : Lexeme × List Char}
    (h : lexeme? afterQuote text = some found) (p : Position) :
    skipTrivia false p text = (p, text) := by
  cases text with
  | nil => cases h
  | cons c text =>
    have hhead : isBlank c = false ∧ c ≠ '/' := by
      unfold lexeme? at h
      split at h
      case h_10 => exact not_isBlank_of_beginsWord (beginsWord_of_wordOrNumber? h)
      all_goals
        rename_i heq
        rw [(List.cons.inj heq).1]
        decide
    rw [skipTrivia, if_neg (by simp [hhead.1]), if_neg (fun hc => hhead.2 hc.1)]

/-! ## Tokens with trivia around them -/

/-- The text is these tokens, with trivia before, between and behind them. -/
inductive Scanned : Bool → Position → List Char → List Token → Prop
  | done {afterQuote : Bool} {p : Position} {gap : List Char} {inComment : Bool}
    (trivia : Trivia false gap inComment) : Scanned afterQuote p gap []
  | token {afterQuote : Bool} {p : Position} {gap rest : List Char} {lexeme : Lexeme}
    {tokens : List Token} (trivia : Trivia false gap false)
    (read : lexeme? afterQuote (lexeme.text ++ rest) = some (lexeme, rest))
    (more : Scanned (lexeme == .quote) ((p.after gap).after lexeme.text) rest tokens) :
    Scanned afterQuote p (gap ++ (lexeme.text ++ rest))
      (⟨lexeme, p.after gap, (p.after gap).after lexeme.text⟩ :: tokens)

theorem scanned_of_scan {afterQuote : Bool} {p : Position} {text : List Char}
    {tokens : List Token} (h : Tokens.scan afterQuote p text = ⟨tokens, none⟩) :
    Scanned afterQuote p text tokens := by
  fun_induction Tokens.scan afterQuote p text generalizing tokens with
  | case1 afterQuote p text place hskip =>
    cases h
    obtain ⟨gap, behind, htext, hgap, -⟩ := exists_trivia false p text
    rw [hskip, List.append_nil] at htext
    exact htext ▸ .done hgap
  | case2 => cases h
  | case3 afterQuote p text start c rest hskip lexeme tail hread stop =>
    rename_i ih
    simp only [Tokens.cons, Tokens.mk.injEq] at h
    obtain ⟨rfl, hstray⟩ := h
    obtain ⟨gap, behind, htext, hgap, hplace, hend⟩ := exists_trivia false p text
    rw [hskip] at htext hplace hend
    obtain rfl : behind = false := hend.resolve_left (List.cons_ne_nil c rest)
    obtain rfl : start = p.after gap := hplace
    have hcut := (lexeme?_append hread).1
    rw [htext, hcut]
    rw [hcut] at hread
    exact .token hgap hread (ih (by rw [← hstray]))

theorem scan_of_end {afterQuote : Bool} {p place : Position} {text : List Char}
    (h : skipTrivia false p text = (place, [])) : Tokens.scan afterQuote p text = ⟨[], none⟩ := by
  rw [Tokens.scan]
  split
  · rfl
  · rename_i hskip
    rw [h] at hskip
    cases hskip

theorem scan_of_lexeme {afterQuote : Bool} {p start : Position} {text tail rest : List Char}
    {lexeme : Lexeme} (hskip : skipTrivia false p text = (start, tail))
    (hread : lexeme? afterQuote tail = some (lexeme, rest)) :
    Tokens.scan afterQuote p text = .cons ⟨lexeme, start, start.after lexeme.text⟩
      (Tokens.scan (lexeme == .quote) (start.after lexeme.text) rest) := by
  rw [Tokens.scan]
  split
  · rename_i hend
    rw [hskip] at hend
    cases hend
    cases hread
  · rename_i hfound
    rw [hskip] at hfound
    cases hfound
    split
    · rename_i hnone
      rw [hread] at hnone
      cases hnone
    · rename_i hsome
      rw [hread] at hsome
      cases hsome
      rfl

theorem Scanned.scan {afterQuote : Bool} {p : Position} {text : List Char}
    {tokens : List Token} (h : Scanned afterQuote p text tokens) :
    Tokens.scan afterQuote p text = ⟨tokens, none⟩ := by
  induction h with
  | @done afterQuote p gap inComment trivia =>
    have hskip := trivia.skip p []
    rw [List.append_nil] at hskip
    exact scan_of_end (hskip.trans (by cases inComment <;> rfl))
  | @token afterQuote p gap rest lexeme tokens trivia read more ih =>
    rw [scan_of_lexeme ((trivia.skip p _).trans (skipTrivia_of_lexeme read _)) read, ih]
    rfl

/-- The text splits into these tokens just if they are what is scanned. -/
theorem scanned_iff {afterQuote : Bool} {p : Position} {text : List Char} {tokens : List Token} :
    Scanned afterQuote p text tokens ↔ Tokens.scan afterQuote p text = ⟨tokens, none⟩ :=
  ⟨Scanned.scan, scanned_of_scan⟩

def endsInQuote (afterQuote : Bool) : List Token → Bool
  | [] => afterQuote
  | token :: tokens => endsInQuote (token.lexeme == .quote) tokens

theorem endsInQuote_append (afterQuote : Bool) (s t : List Token) :
    endsInQuote afterQuote (s ++ t) = endsInQuote (endsInQuote afterQuote s) t := by
  induction s generalizing afterQuote with
  | nil => rfl
  | cons token s ih => exact ih _

/-- Each token begins behind those before it. -/
structure InOrder (tokens : List Token) : Prop where
  proper : ∀ token ∈ tokens, token.span.start ≤ token.span.stop
  apart : tokens.Pairwise (fun a b => a.span.Before b.span)

theorem InOrder.sublist {s t : List Token} (h : InOrder t) (hsub : s.Sublist t) : InOrder s :=
  ⟨fun token htoken => h.proper token (hsub.subset htoken), h.apart.sublist hsub⟩

namespace Scanned
variable {afterQuote : Bool} {p : Position} {text : List Char} {tokens : List Token}

theorem lexeme {lexeme : Lexeme} {rest : List Char}
    (read : lexeme? afterQuote (lexeme.text ++ rest) = some (lexeme, rest))
    (more : Scanned (lexeme == .quote) (p.after lexeme.text) rest tokens) :
    Scanned afterQuote p (lexeme.text ++ rest) (⟨lexeme, p, p.after lexeme.text⟩ :: tokens) :=
  .token .nothing read more

theorem prepend (h : Scanned afterQuote (p.after gap) text tokens)
    (trivia : Trivia false gap false) : Scanned afterQuote p (gap ++ text) tokens := by
  cases h with
  | done more => exact .done (trivia.append more)
  | token more read tail =>
    rw [← Position.after_append p gap] at tail ⊢
    rw [← List.append_assoc]
    exact .token (trivia.append more) read tail

theorem relocate (h : Scanned afterQuote p text tokens) {move : Position → Position}
    (hmove : Carries move p) :
    Scanned afterQuote (move p) text (tokens.map (Token.relocate move)) := by
  induction h with
  | done trivia => exact .done trivia
  | @token afterQuote p gap rest lexeme tokens trivia read more ih =>
    have hplace : move (p.after gap) = (move p).after gap := hmove gap
    have hstop : move ((p.after gap).after lexeme.text) =
        ((move p).after gap).after lexeme.text := by
      rw [hmove.after gap, hplace]
    have hrest := ih ((hmove.after gap).after lexeme.text)
    rw [hstop] at hrest
    rw [List.map_cons, Token.relocate, Span.relocate, hplace, hstop]
    exact .token trivia read hrest

/-- The tokens of a text and of another one on the lines behind it. -/
theorem append_line (h : Scanned afterQuote p text tokens) {more : List Char}
    {others : List Token}
    (hmore : Scanned (endsInQuote afterQuote tokens) ((p.after text).next '\n') more others) :
    Scanned afterQuote p (text ++ '\n' :: more) (tokens ++ others) := by
  induction h with
  | @done afterQuote p gap inComment trivia =>
    -- A comment that is still open ends with the line.
    have hend : Trivia inComment ['\n'] false := by
      cases inComment with
      | false => exact .blank rfl .nothing
      | true => exact .comment .nothing
    have hplace : p.after (gap ++ ['\n']) = (p.after gap).next '\n' := by
      rw [Position.after_append]
      rfl
    have hline := prepend (hplace ▸ hmore) (trivia.append hend)
    rwa [List.append_assoc] at hline
  | @token afterQuote p gap rest lexeme tokens trivia read tail ih =>
    rw [Position.after_append, Position.after_append] at hmore
    have hstops : Stops ('\n' :: more) := stops_cons (by decide)
    have hread := lexeme?_append_of_stops read hstops
    rw [List.append_assoc] at hread
    rw [List.append_assoc, List.append_assoc]
    exact .token trivia hread (ih hmore)

theorem split {first others : List Token} (h : Scanned afterQuote p text (first ++ others)) :
    ∃ head tail, text = head ++ tail ∧ Scanned afterQuote p head first ∧
      Scanned (endsInQuote afterQuote first) (p.after head) tail others ∧
      (first = [] → head = []) ∧ ∀ token ∈ first.getLast?, token.span.stop = p.after head := by
  induction first generalizing afterQuote p text with
  | nil => exact ⟨[], text, rfl, .done .nothing, h, fun _ => rfl, by simp⟩
  | cons token first ih =>
    cases h with
    | @token _ _ gap rest lexeme _ trivia read more =>
      obtain ⟨head, tail, rfl, hhead, htail, hnil, hstop⟩ := ih more
      have hplace : p.after (gap ++ (lexeme.text ++ head)) =
          ((p.after gap).after lexeme.text).after head := by
        rw [Position.after_append, Position.after_append]
      rw [← List.append_assoc lexeme.text] at read
      refine ⟨gap ++ (lexeme.text ++ head), tail, by simp only [List.append_assoc],
        .token trivia (lexeme?_of_append read) hhead, hplace ▸ htail,
        fun hnil => absurd hnil (List.cons_ne_nil _ _), ?_⟩
      intro last hlast
      cases first with
      | nil =>
        obtain rfl := Option.some.inj hlast
        rw [hplace, hnil rfl]
        rfl
      | cons next first =>
        rw [hplace]
        exact hstop last hlast

theorem exists_start {token : Token} (h : Scanned afterQuote p text (token :: tokens)) :
    ∃ gap rest, text = gap ++ rest ∧ p.after gap = token.span.start ∧
      Scanned afterQuote (p.after gap) rest (token :: tokens) := by
  cases h with
  | @token _ _ gap rest lexeme _ trivia read more =>
    exact ⟨gap, lexeme.text ++ rest, rfl, rfl, .lexeme read more⟩

theorem inOrder (h : Scanned afterQuote p text tokens) :
    InOrder tokens ∧ ∀ token ∈ tokens, p ≤ token.span.start := by
  induction h with
  | done trivia => exact ⟨⟨List.forall_mem_nil _, .nil⟩, List.forall_mem_nil _⟩
  | @token afterQuote p gap rest lexeme tokens trivia read more ih =>
    obtain ⟨horder, hbehind⟩ := ih
    have hstart := p.le_after gap
    have hstop := (p.after gap).le_after lexeme.text
    refine ⟨⟨fun token htoken => ?_, List.pairwise_cons.2 ⟨hbehind, horder.apart⟩⟩,
      fun token htoken => ?_⟩
    · rcases List.mem_cons.1 htoken with rfl | htoken
      · exact hstop
      · exact horder.proper token htoken
    · rcases List.mem_cons.1 htoken with rfl | htoken
      · exact hstart
      · exact hstart.trans (hstop.trans (hbehind token htoken))

end Scanned

end ModuleLoader.Script
