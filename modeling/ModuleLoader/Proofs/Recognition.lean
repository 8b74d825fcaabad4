import ModuleLoader.Proofs.Derivation

/-!
# Tokens are read as they are derived

* `Assembly.read?` : the statements that tokens make;
* `Assembly.Expects` : an expression may begin;
* `Expr.read?_tokens` : where an expression may begin, the tokens of one are read as one;
* `exists_expr` : where an expression may begin, what is read begins with the tokens of one, or
  else with those of an assignment;
* `read?_eq_some_iff` : tokens are read just if they have a derivation, and then as the statements
  that it stands for.
-/

namespace ModuleLoader.Script

open ModuleLoader.Script.Derivation (Expr Items More Clause Sentence Begins Settles)

/-! ## Open brackets -/

namespace Frame

def push (e : Expression Spelling) : Frame → Frame
  | .call name start items => .call name start (e :: items)
  | .array start items => .array start (e :: items)

def close (stop : Position) : Frame → Expression Spelling
  | .call name start items => .call name items.reverse ⟨start, stop⟩
  | .array start items => .array items.reverse ⟨start, stop⟩

def closer : Frame → Lexeme
  | .call _ _ _ => .closeParen
  | .array _ _ => .closeBracket

def pushAll (es : List (Expression Spelling)) (frame : Frame) : Frame :=
  es.foldl (fun frame e => frame.push e) frame

@[simp] theorem closer_push (frame : Frame) (e : Expression Spelling) :
    (frame.push e).closer = frame.closer := by
  cases frame <;> rfl

theorem pushAll_call (name : String) (start : Position) (items es : List (Expression Spelling)) :
    (Frame.call name start items).pushAll es = .call name start (es.reverse ++ items) := by
  induction es generalizing items with
  | nil => rfl
  | cons e es ih =>
    rw [List.reverse_cons, List.append_assoc]
    exact ih (e :: items)

theorem pushAll_array (start : Position) (items es : List (Expression Spelling)) :
    (Frame.array start items).pushAll es = .array start (es.reverse ++ items) := by
  induction es generalizing items with
  | nil => rfl
  | cons e es ih =>
    rw [List.reverse_cons, List.append_assoc]
    exact ih (e :: items)

theorem closes_closer (frame : Frame) (span : Span) :
    Derivation.Closes ⟨frame.closer, span⟩ := by
  cases frame with
  | call name start items => exact Or.inl rfl
  | array start items => exact Or.inr rfl

end Frame

namespace Assembly

/-! ## Steps -/

/-- The statements that tokens make, if they may stand there and end there. -/
def read? (a : Assembly) (tokens : List Token) : Option (List (Statement Spelling)) :=
  match a.run tokens with
  | .ok last => last.finish?
  | .error _ => none

theorem read?_cons (a : Assembly) (token : Token) (tokens : List Token) :
    a.read? (token :: tokens) = (a.step? token).bind (fun next => next.read? tokens) := by
  unfold read?
  rw [run]
  cases a.step? token <;> rfl

@[simp] theorem supply_enter (a : Assembly) (phase : Phase) (context : Context)
    (e : Expression Spelling) : (a.enter phase).supply context e = a.supply context e := by
  unfold supply
  split <;> rfl

@[simp] theorem begin?_enter (a : Assembly) (phase : Phase) (context : Context) (token : Token) :
    (a.enter phase).begin? context token = a.begin? context token := by
  unfold begin?
  split
  · rw [supply_enter]
  · rfl
  · rfl
  · rfl
  · rfl

theorem supply_frame (a : Assembly) (target : Option (String × Position)) (frame : Frame)
    (frames : List Frame) (e : Expression Spelling) :
    a.supply ⟨target, frame :: frames⟩ e = a.enter (.item ⟨target, frame.push e :: frames⟩) := by
  cases frame <;> rfl

theorem settle_supply (a : Assembly) (context : Context) (e : Expression Spelling) :
    (a.supply context e).settle = a.supply context e := by
  unfold supply
  split <;> rfl

theorem step?_supply (a : Assembly) (context : Context) (e : Expression Spelling)
    (token : Token) :
    (a.supply context e).step? token = (a.supply context e).stepSettled? token := by
  unfold supply
  split <;> rfl

theorem close?_closer (a : Assembly) (target : Option (String × Position)) (frame : Frame)
    (frames : List Frame) (span : Span) :
    a.close? ⟨target, frame :: frames⟩ ⟨frame.closer, span⟩ =
      some (a.supply ⟨target, frames⟩ (frame.close span.stop)) := by
  cases frame <;> rfl

theorem close?_eq_some {a next : Assembly} {target : Option (String × Position)} {frame : Frame}
    {frames : List Frame} {token : Token}
    (h : a.close? ⟨target, frame :: frames⟩ token = some next) :
    token = ⟨frame.closer, token.span⟩ ∧
      next = a.supply ⟨target, frames⟩ (frame.close token.span.stop) := by
  obtain ⟨lexeme, span⟩ := token
  unfold close? at h
  split at h
  · rename_i hlexeme hframes
    cases hframes
    cases hlexeme
    exact ⟨rfl, (Option.some.inj h).symm⟩
  · rename_i hlexeme hframes
    cases hframes
    cases hlexeme
    exact ⟨rfl, (Option.some.inj h).symm⟩
  · cases h

theorem close?_of_begins {a : Assembly} {context : Context} {token : Token} (h : Begins token) :
    a.close? context token = none := by
  unfold close?
  split
  · rename_i hlexeme _
    simp [Begins, hlexeme] at h
  · rename_i hlexeme _
    simp [Begins, hlexeme] at h
  · rfl

theorem begins_of_begin? {a next : Assembly} {context : Context} {token : Token}
    (h : a.begin? context token = some next) : Begins token := by
  unfold begin? at h
  unfold Begins
  split at h <;> simp_all

/-- An expression may begin in this phase, and this is where it stands. -/
inductive Expects : Phase → Context → Prop
  | ready : Expects .ready .top
  | closed : Expects .closed .top
  | operand {context : Context} : Expects (.operand context) context
  | opened {context : Context} : Expects (.opened context) context

theorem step?_of_begins {a : Assembly} {context : Context} {token : Token}
    (h : Expects a.phase context) (hbegins : Begins token) :
    a.step? token = a.begin? context token := by
  obtain ⟨statements, phase⟩ := a
  cases h with
  | ready => rfl
  | closed =>
    have hsemicolon : token.lexeme ≠ .semicolon := by
      intro hlexeme
      simp [Begins, hlexeme] at hbegins
    simp only [step?, stepSettled?, if_neg hsemicolon]
  | operand => rfl
  | opened =>
    simp only [step?, stepSettled?, close?_of_begins hbegins]
    rfl

section
variable {a : Assembly} {context : Context}

theorem step?_literal (h : Expects a.phase context) (spelling : Spelling) (span : Span) :
    a.step? ⟨.literal spelling, span⟩ = some (a.supply context (.literal spelling span)) :=
  step?_of_begins h trivial

theorem step?_name (h : Expects a.phase context) (name : List Char) (span : Span) :
    a.step? ⟨.name name, span⟩ = some (a.enter (.named context (String.ofList name) span)) :=
  step?_of_begins h trivial

theorem step?_quote (h : Expects a.phase context) (span : Span) :
    a.step? ⟨.quote, span⟩ = some (a.enter (.quoted context span.start)) :=
  step?_of_begins h trivial

theorem step?_openBracket (h : Expects a.phase context) (span : Span) :
    a.step? ⟨.openBracket, span⟩ =
      some (a.enter (.opened ⟨context.target, .array span.start [] :: context.frames⟩)) :=
  step?_of_begins h trivial

end

theorem step?_openParen (a : Assembly) (context : Context) (name : String) (span opening : Span) :
    (a.enter (.named context name span)).step? ⟨.openParen, opening⟩ =
      some (a.enter (.opened ⟨context.target, .call name span.start [] :: context.frames⟩)) :=
  rfl

theorem step?_assign (a : Assembly) (name : String) (span assign : Span) :
    (a.enter (.named .top name span)).step? ⟨.assign, assign⟩ =
      some (a.enter (.operand ⟨some (name, span.start), []⟩)) :=
  rfl

theorem extendName?_eq_none {a : Assembly} {context : Context} {name : String} {span : Span}
    {token : Token} (h : token.lexeme ≠ .openParen)
    (hassign : token.lexeme ≠ .assign ∨ context ≠ .top) :
    a.extendName? context name span token = none := by
  unfold extendName?
  split
  · rename_i hlexeme
    exact absurd hlexeme h
  · rename_i hlexeme
    exact absurd rfl (hassign.resolve_left (not_not.2 hlexeme))
  · rfl

section
variable {a : Assembly} {target : Option (String × Position)} {frame : Frame}
  {frames : List Frame}

theorem step?_closer_opened (h : a.phase = .opened ⟨target, frame :: frames⟩) (span : Span) :
    a.step? ⟨frame.closer, span⟩ =
      some (a.supply ⟨target, frames⟩ (frame.close span.stop)) := by
  simp only [step?, stepSettled?, h, close?_closer]
  rfl

theorem step?_closer_item (h : a.phase = .item ⟨target, frame :: frames⟩) (span : Span) :
    a.step? ⟨frame.closer, span⟩ =
      some (a.supply ⟨target, frames⟩ (frame.close span.stop)) := by
  have hcomma : frame.closer ≠ .comma := by
    cases frame <;> exact Lexeme.noConfusion
  simp only [step?, stepSettled?, h, close?_closer, if_neg hcomma]

theorem step?_comma (h : a.phase = .item ⟨target, frame :: frames⟩) (span : Span) :
    a.step? ⟨.comma, span⟩ = some (a.enter (.operand ⟨target, frame :: frames⟩)) := by
  simp only [step?, stepSettled?, h, if_true]

end

/-- A name is a reference where nothing makes more of it. -/
theorem step?_named {a : Assembly} {context : Context} {name : String} {span : Span}
    {token : Token} (h : token.lexeme ≠ .openParen)
    (hassign : token.lexeme ≠ .assign ∨ context ≠ .top) :
    (a.enter (.named context name span)).step? token =
      (a.supply context (.reference name span)).step? token := by
  rw [step?_supply, ← supply_enter a (.named context name span)]
  have hnone : (a.enter (.named context name span)).extendName? context name span token = none :=
    extendName?_eq_none h hassign
  simp only [step?, enter] at hnone ⊢
  rw [hnone]
  rfl

theorem read?_named (a : Assembly) (context : Context) (name : String) (span : Span)
    {rest : List Token} (h : Settles rest) :
    (a.enter (.named context name span)).read? rest =
      (a.supply context (.reference name span)).read? rest := by
  cases rest with
  | nil =>
    change finish? _ = finish? _
    have hsettle : (a.enter (.named context name span)).settle =
        (a.supply context (.reference name span)).settle := by
      rw [settle_supply]
      exact supply_enter a _ context _
    unfold finish?
    rw [hsettle]
  | cons token rest =>
    have hlexeme := h token rfl
    rw [read?_cons, read?_cons, step?_named hlexeme.1 (Or.inl hlexeme.2)]

/-! ## Derived tokens are read -/

mutual
/-- Where an expression may begin, the tokens of one are read as one. -/
theorem read?_expr (e : Expr) {a : Assembly} {context : Context} {rest : List Token}
    (h : Expects a.phase context) (hrest : Settles rest) :
    a.read? (e.tokens ++ rest) = (a.supply context (e.expression id)).read? rest := by
  cases e with
  | literal spelling span =>
    rw [Expr.tokens, List.singleton_append, read?_cons, step?_literal h]
    rfl
  | symbol quote name span =>
    rw [Expr.tokens, List.cons_append, read?_cons, step?_quote h, Option.bind_some,
      List.singleton_append, read?_cons, ← supply_enter a (.quoted context quote.start)]
    rfl
  | reference name span =>
    rw [Expr.tokens, List.singleton_append, read?_cons, step?_name h]
    exact read?_named a context (String.ofList name) span hrest
  | array opening items closing =>
    have hitems := read?_items items (a := a.enter (.opened ⟨context.target,
      .array opening.start [] :: context.frames⟩)) rfl closing rest
    rw [Frame.pushAll_array, supply_enter] at hitems
    rw [Expr.tokens, List.cons_append, List.append_assoc, read?_cons, step?_openBracket h,
      Option.bind_some]
    simpa [Frame.close, Frame.closer, Expr.expression] using hitems
  | call name span opening items closing =>
    have hitems := read?_items items (a := a.enter (.opened ⟨context.target,
      .call (String.ofList name) span.start [] :: context.frames⟩)) rfl closing rest
    rw [Frame.pushAll_call, supply_enter] at hitems
    rw [Expr.tokens, List.cons_append, List.cons_append, List.append_assoc, read?_cons,
      step?_name h, Option.bind_some, read?_cons, step?_openParen, Option.bind_some]
    simpa [Frame.close, Frame.closer, Expr.expression] using hitems

theorem read?_items (items : Items) {a : Assembly} {target : Option (String × Position)}
    {frame : Frame} {frames : List Frame} (h : a.phase = .opened ⟨target, frame :: frames⟩)
    (closing : Span) (rest : List Token) :
    a.read? (items.tokens ++ ⟨frame.closer, closing⟩ :: rest) =
      (a.supply ⟨target, frames⟩
        ((frame.pushAll (items.expressions id)).close closing.stop)).read? rest := by
  cases items with
  | nothing =>
    rw [Items.tokens, List.nil_append, read?_cons, step?_closer_opened h]
    rfl
  | items first more =>
    have hfirst := read?_expr first (h ▸ Expects.opened)
      (more.settles (frame.closes_closer closing) rest)
    rw [Items.tokens, List.append_assoc, hfirst, supply_frame, ← frame.closer_push]
    rw [read?_more more rfl closing rest, supply_enter]
    rfl

theorem read?_more (more : More) {a : Assembly} {target : Option (String × Position)}
    {frame : Frame} {frames : List Frame} (h : a.phase = .item ⟨target, frame :: frames⟩)
    (closing : Span) (rest : List Token) :
    a.read? (more.tokens ++ ⟨frame.closer, closing⟩ :: rest) =
      (a.supply ⟨target, frames⟩
        ((frame.pushAll (more.expressions id)).close closing.stop)).read? rest := by
  cases more with
  | done =>
    rw [More.tokens, List.nil_append, read?_cons, step?_closer_item h]
    rfl
  | next comma item more =>
    rw [More.tokens, List.cons_append, read?_cons, step?_comma h, Option.bind_some,
      List.append_assoc, read?_expr item .operand
        (more.settles (frame.closes_closer closing) rest), supply_enter, supply_frame,
      ← frame.closer_push (item.expression id), read?_more more rfl closing rest, supply_enter]
    rfl
end

/-! ## Read tokens are derived -/

section
variable {a : Assembly} {token : Token} {tokens : List Token}
  {statements : List (Statement Spelling)}

theorem exists_step (h : a.read? (token :: tokens) = some statements) :
    ∃ next, a.step? token = some next ∧ next.read? tokens = some statements := by
  rw [read?_cons] at h
  exact Option.bind_eq_some_iff.1 h

/-- Behind a quote, what is read begins with a name. -/
theorem exists_name {context : Context} {start : Position}
    (h : (a.enter (.quoted context start)).read? tokens = some statements) :
    ∃ name span rest, tokens = ⟨.name name, span⟩ :: rest ∧
      (a.supply context (.symbol (String.ofList name) ⟨start, span.stop⟩)).read? rest =
        some statements := by
  cases tokens with
  | nil => cases h
  | cons token rest =>
    obtain ⟨next, hstep, hnext⟩ := exists_step h
    obtain ⟨lexeme, span⟩ := token
    simp only [step?, stepSettled?, enter] at hstep
    split at hstep
    · rename_i name
      cases hstep
      exact ⟨name, span, rest, rfl, (supply_enter a (.quoted context start) _ _) ▸ hnext⟩
    · cases hstep

end

/-- Where an expression stands that begins with these tokens; behind it the reading goes on. -/
def ReadsExpr (a : Assembly) (context : Context) (tokens : List Token)
    (statements : List (Statement Spelling)) : Prop :=
  ∃ e : Expr, ∃ rest, tokens = e.tokens ++ rest ∧
    (a.supply context (e.expression id)).read? rest = some statements

/-- An assignment begins with these tokens; behind its sign the reading goes on. -/
def ReadsTarget (a : Assembly) (tokens : List Token) (statements : List (Statement Spelling)) :
    Prop :=
  ∃ name span assign rest, tokens = ⟨.name name, span⟩ :: ⟨.assign, assign⟩ :: rest ∧
    (a.enter (.operand ⟨some (String.ofList name, span.start), []⟩)).read? rest = some statements

/-- A name that is read stands for itself, or what follows makes it a call or an assignment. -/
theorem exists_named {a : Assembly} {context : Context} {name : List Char} {span : Span}
    {tokens : List Token} {statements : List (Statement Spelling)}
    (h : (a.enter (.named context (String.ofList name) span)).read? tokens = some statements) :
    (a.supply context (.reference (String.ofList name) span)).read? tokens = some statements ∨
    (∃ opening rest, tokens = ⟨.openParen, opening⟩ :: rest ∧
      (a.enter (.opened ⟨context.target,
        .call (String.ofList name) span.start [] :: context.frames⟩)).read? rest =
          some statements) ∨
    context = .top ∧ ReadsTarget a (⟨.name name, span⟩ :: tokens) statements := by
  cases tokens with
  | nil =>
    have hnil : Settles [] := fun t ht => by cases ht
    exact Or.inl (read?_named a context _ span hnil ▸ h)
  | cons second tokens =>
    by_cases hopen : second.lexeme = .openParen
    · obtain ⟨lexeme, opening⟩ := second
      cases hopen
      obtain ⟨next, hstep, hitems⟩ := exists_step h
      rw [step?_openParen] at hstep
      cases hstep
      exact Or.inr (Or.inl ⟨opening, tokens, rfl, hitems⟩)
    · by_cases hassign : second.lexeme = .assign ∧ context = .top
      · obtain ⟨lexeme, assign⟩ := second
        obtain ⟨hlexeme, rfl⟩ := hassign
        cases hlexeme
        obtain ⟨next, hstep, htarget⟩ := exists_step h
        rw [step?_assign] at hstep
        cases hstep
        exact Or.inr (Or.inr ⟨rfl, name, span, assign, tokens, rfl, htarget⟩)
      · rw [read?_cons, step?_named hopen (not_and_or.1 hassign), ← read?_cons] at h
        exact Or.inl h

-- By induction on the number of tokens. Items begin with an expression on the same tokens, so their
-- measure is the odd one above that of the expression.
mutual
/-- Where an expression may begin, what is read begins with the tokens of one, or else, at the
beginning of a statement, with those of an assignment. -/
theorem exists_expr {a : Assembly} {context : Context} {token : Token} {tokens : List Token}
    {statements : List (Statement Spelling)} (h : Expects a.phase context)
    (hbegins : Begins token) (hread : a.read? (token :: tokens) = some statements) :
    ReadsExpr a context (token :: tokens) statements ∨
      context = .top ∧ ReadsTarget a (token :: tokens) statements := by
  obtain ⟨next, hstep, hnext⟩ := exists_step hread
  obtain ⟨lexeme, span⟩ := token
  cases lexeme with
  | literal spelling =>
    rw [step?_literal h] at hstep
    cases hstep
    exact Or.inl ⟨.literal spelling span, tokens, rfl, hnext⟩
  | quote =>
    rw [step?_quote h] at hstep
    cases hstep
    obtain ⟨name, span', rest, rfl, hrest⟩ := exists_name hnext
    exact Or.inl ⟨.symbol span name span', rest, rfl, hrest⟩
  | openBracket =>
    rw [step?_openBracket h] at hstep
    cases hstep
    obtain ⟨items, closing, rest, htokens, hrest⟩ := exists_items rfl hnext
    refine Or.inl ⟨.array span items closing, rest, ?_, ?_⟩
    · simp [Expr.tokens, htokens, Frame.closer]
    · rw [supply_enter, Frame.pushAll_array] at hrest
      simpa [Frame.close, Expr.expression] using hrest
  | name name =>
    rw [step?_name h] at hstep
    cases hstep
    rcases exists_named hnext with hreference | hcall | htarget
    · exact Or.inl ⟨.reference name span, tokens, rfl, hreference⟩
    · obtain ⟨opening, behind, hopening, hitems⟩ := hcall
      have hlength : tokens.length = behind.length + 1 := by rw [hopening, List.length_cons]
      obtain ⟨items, closing, rest, htokens, hrest⟩ := exists_items rfl hitems
      refine Or.inl ⟨.call name span opening items closing, rest, ?_, ?_⟩
      · simp [Expr.tokens, hopening, htokens, Frame.closer]
      · rw [supply_enter, Frame.pushAll_call] at hrest
        simpa [Frame.close, Expr.expression] using hrest
    · exact Or.inr htarget
  | _ => exact hbegins.elim
termination_by 2 * tokens.length + 2
decreasing_by all_goals omega

theorem exists_items {a : Assembly} {target : Option (String × Position)} {frame : Frame}
    {frames : List Frame} {tokens : List Token} {statements : List (Statement Spelling)}
    (h : a.phase = .opened ⟨target, frame :: frames⟩) (hread : a.read? tokens = some statements) :
    ∃ (items : Items) (closing : Span) (rest : List Token),
      tokens = items.tokens ++ ⟨frame.closer, closing⟩ :: rest ∧
      (a.supply ⟨target, frames⟩
        ((frame.pushAll (items.expressions id)).close closing.stop)).read? rest =
          some statements := by
  match tokens, hread with
  | [], hread => simp [read?, run, finish?, settle, h] at hread
  | token :: tokens, hread =>
    obtain ⟨next, hstep, hnext⟩ := exists_step hread
    simp only [step?, stepSettled?, h] at hstep
    cases hclose : a.close? ⟨target, frame :: frames⟩ token with
    | some closed =>
      rw [hclose] at hstep
      cases hstep
      obtain ⟨htoken, rfl⟩ := close?_eq_some hclose
      exact ⟨.nothing, token.span, tokens, by rw [htoken]; rfl, hnext⟩
    | none =>
      -- What does not close the bracket begins an item.
      rw [hclose] at hstep
      have hbegins : Begins token := begins_of_begin? hstep
      rcases exists_expr (h ▸ Expects.opened) hbegins hread with hexpr | ⟨htop, -⟩
      · obtain ⟨e, rest, htokens, hrest⟩ := hexpr
        have hlength := e.length_lt htokens
        rw [supply_frame] at hrest
        obtain ⟨more, closing, behind, hmore, hbehind⟩ := exists_more rfl hrest
        rw [supply_enter] at hbehind
        refine ⟨.items e more, closing, behind, ?_, hbehind⟩
        rw [htokens, hmore, Frame.closer_push, Items.tokens, List.append_assoc]
      · cases htop
termination_by 2 * tokens.length + 1
decreasing_by all_goals simp only [List.length_cons] at *; omega

theorem exists_more {a : Assembly} {target : Option (String × Position)} {frame : Frame}
    {frames : List Frame} {tokens : List Token} {statements : List (Statement Spelling)}
    (h : a.phase = .item ⟨target, frame :: frames⟩) (hread : a.read? tokens = some statements) :
    ∃ (more : More) (closing : Span) (rest : List Token),
      tokens = more.tokens ++ ⟨frame.closer, closing⟩ :: rest ∧
      (a.supply ⟨target, frames⟩
        ((frame.pushAll (more.expressions id)).close closing.stop)).read? rest =
          some statements := by
  match tokens, hread with
  | [], hread => simp [read?, run, finish?, settle, h] at hread
  | token :: tokens, hread =>
    obtain ⟨next, hstep, hnext⟩ := exists_step hread
    simp only [step?, stepSettled?, h] at hstep
    split at hstep
    · rename_i hcomma
      cases hstep
      match tokens, hnext with
      | [], hnext => simp [read?, run, finish?, settle, enter] at hnext
      | second :: tokens, hnext =>
        obtain ⟨_, hsecond, -⟩ := exists_step hnext
        have hbegins : Begins second := begins_of_begin? hsecond
        rcases exists_expr .operand hbegins hnext with hexpr | ⟨htop, -⟩
        · obtain ⟨e, rest, htokens, hrest⟩ := hexpr
          have hlength := e.length_lt htokens
          rw [supply_enter, supply_frame] at hrest
          obtain ⟨more, closing, behind, hmore, hbehind⟩ := exists_more rfl hrest
          rw [supply_enter] at hbehind
          refine ⟨.next token.span e more, closing, behind, ?_, hbehind⟩
          rw [htokens, hmore, Frame.closer_push, More.tokens, List.cons_append,
            List.append_assoc, ← hcomma]
        · cases htop
    · obtain ⟨htoken, rfl⟩ := close?_eq_some hstep
      exact ⟨.done, token.span, tokens, by rw [htoken]; rfl, hnext⟩
termination_by 2 * tokens.length + 1
decreasing_by all_goals simp only [List.length_cons] at *; omega
end

/-! ## Statements -/

/-- At the beginning of a statement, what is read begins with the tokens of one. -/
theorem exists_clause {a : Assembly} {token : Token} {tokens : List Token}
    {statements : List (Statement Spelling)} (h : Expects a.phase .top)
    (hbegins : Begins token) (hread : a.read? (token :: tokens) = some statements) :
    ∃ (c : Clause) (rest : List Token), token :: tokens = c.tokens ++ rest ∧
      read? ⟨c.statement id :: a.statements, .closed⟩ rest = some statements := by
  rcases exists_expr h hbegins hread with hexpr | ⟨-, htarget⟩
  · obtain ⟨e, rest, htokens, hrest⟩ := hexpr
    exact ⟨.expression e, rest, htokens, hrest⟩
  · obtain ⟨name, span, assign, value, htokens, hvalue⟩ := htarget
    cases value with
    | nil => cases hvalue
    | cons first value =>
      obtain ⟨_, hfirst, -⟩ := exists_step hvalue
      rcases exists_expr .operand (begins_of_begin? hfirst) hvalue with hexpr | ⟨htop, -⟩
      · obtain ⟨e, rest, hrest, hread⟩ := hexpr
        exact ⟨.assignment name span assign e, rest, by rw [htokens, hrest]; rfl, hread⟩
      · cases htop

theorem exists_semicolon {a : Assembly} {tokens : List Token}
    {statements : List (Statement Spelling)} (h : a.phase = .closed)
    (hread : a.read? tokens = some statements) :
    ∃ (semicolon : Option Span) (rest : List Token),
      tokens = (semicolon.map (Token.mk .semicolon)).toList ++ rest ∧
      (a.enter .ready).read? rest = some statements := by
  obtain ⟨completed, phase⟩ := a
  obtain rfl : phase = .closed := h
  cases tokens with
  | nil => exact ⟨none, [], rfl, hread⟩
  | cons token tokens =>
    obtain ⟨next, hstep, hnext⟩ := exists_step hread
    by_cases hsemicolon : token.lexeme = .semicolon
    · obtain ⟨lexeme, span⟩ := token
      cases hsemicolon
      cases hstep
      exact ⟨some span, tokens, rfl, hnext⟩
    · refine ⟨none, token :: tokens, rfl, ?_⟩
      simp only [step?, stepSettled?, if_neg hsemicolon] at hstep
      rw [read?_cons]
      exact Option.bind_eq_some_iff.2 ⟨next, hstep, hnext⟩

/-- At the beginning of a statement, what is read has a derivation, and it is read as the
statements that the derivation stands for. -/
theorem exists_sentences {a : Assembly} {tokens : List Token}
    {statements : List (Statement Spelling)} (h : a.phase = .ready)
    (hread : a.read? tokens = some statements) :
    ∃ d : Derivation, d.tokens = tokens ∧
      statements = a.statements.reverse ++ d.statements id := by
  match tokens, hread with
  | [], hread =>
    have hfinish : a.statements.reverse = statements := by
      simpa [read?, run, finish?, settle, h] using hread
    exact ⟨⟨[]⟩, rfl, by simp [hfinish, Derivation.statements]⟩
  | token :: tokens, hread =>
    obtain ⟨_, hfirst, -⟩ := exists_step hread
    simp only [step?, stepSettled?, h] at hfirst
    obtain ⟨c, behind, hclause, hbehind⟩ :=
      exists_clause (h ▸ Expects.ready) (begins_of_begin? hfirst) hread
    obtain ⟨semicolon, rest, hsemicolon, hrest⟩ := exists_semicolon rfl hbehind
    have hlength := c.length_lt hclause
    have hrestLength : rest.length ≤ behind.length := by
      rw [hsemicolon, List.length_append]
      omega
    obtain ⟨d, rfl, hstatements⟩ := exists_sentences rfl hrest
    refine ⟨⟨⟨c, semicolon⟩ :: d.sentences⟩, ?_, ?_⟩
    · rw [hclause, hsemicolon, ← List.append_assoc]
      rfl
    · simpa [enter, Derivation.statements] using hstatements
termination_by tokens.length
decreasing_by omega

/-- At the beginning of a statement, the tokens of one are read as it. -/
theorem read?_clause (c : Clause) (a : Assembly) (h : a.phase = .ready) {rest : List Token}
    (hrest : Settles rest) :
    a.read? (c.tokens ++ rest) = read? ⟨c.statement id :: a.statements, .closed⟩ rest := by
  have hexpects : Expects a.phase .top := h ▸ Expects.ready
  cases c with
  | expression e => exact read?_expr e hexpects hrest
  | assignment name span assign value =>
    rw [Clause.tokens, List.cons_append, read?_cons, step?_name hexpects, Option.bind_some,
      List.cons_append, read?_cons, step?_assign, Option.bind_some]
    have hvalue : Expects (a.enter (.operand ⟨some (String.ofList name, span.start), []⟩)).phase
        ⟨some (String.ofList name, span.start), []⟩ := .operand
    exact read?_expr value hvalue hrest

theorem read?_semicolon (a : Assembly) (h : a.phase = .closed) (semicolon : Option Span)
    (sentences : List Sentence) :
    a.read? ((semicolon.map (Token.mk .semicolon)).toList ++
        sentences.flatMap Sentence.tokens) =
      (a.enter .ready).read? (sentences.flatMap Sentence.tokens) := by
  obtain ⟨completed, phase⟩ := a
  obtain rfl : phase = .closed := h
  cases semicolon with
  | some span => rfl
  | none =>
    cases sentences with
    | nil => rfl
    | cons s sentences =>
      obtain ⟨token, more, htokens, hbegins⟩ := s.exists_begins
      simp only [List.flatMap_cons, htokens, List.cons_append, Option.map_none,
        Option.toList_none, List.nil_append, read?_cons]
      rw [step?_of_begins .closed hbegins, step?_of_begins .ready hbegins, begin?_enter]

theorem read?_sentences (sentences : List Sentence) (a : Assembly) (h : a.phase = .ready) :
    a.read? (sentences.flatMap Sentence.tokens) =
      some (a.statements.reverse ++ Derivation.statements id ⟨sentences⟩) := by
  induction sentences generalizing a with
  | nil =>
    simp [read?, run, finish?, settle, Derivation.statements, h]
  | cons s sentences ih =>
    rw [List.flatMap_cons, Sentence.tokens, List.append_assoc,
      read?_clause s.clause a h (Derivation.settles_semicolon s.semicolon sentences),
      read?_semicolon _ rfl, ih _ rfl]
    simp [enter, Derivation.statements]

/-- Tokens are read just if they have a derivation, and then as what that stands for. -/
theorem read?_eq_some_iff {tokens : List Token} {statements : List (Statement Spelling)} :
    start.read? tokens = some statements ↔
      ∃ d : Derivation, d.tokens = tokens ∧ statements = d.statements id := by
  constructor
  · intro hread
    simpa [start] using exists_sentences rfl hread
  · rintro ⟨d, rfl, rfl⟩
    exact read?_sentences d.sentences start rfl

end Assembly

end ModuleLoader.Script
