import ModuleLoader.Proofs.Completion

/-!
# Tame programs

A program is tame if it loads nothing by path and writes out the names of the modules that it
requires. Whether its run comes to an end depends on the requires of these names alone.

* `Builtin.loadsPath`, `Builtin.requires` : the functions that load what a path leads to, and those
  that require a module;
* `Expression.moduleName?` : the module that an argument names where it is written out;
* `Expression.isTame`, `Expression.required` : tame expressions, and the modules that they require;
* `Program.isTame`, `Program.required` : the same of programs;
* `Machine.HasFunctions` : the functions of a fresh loader are there, or others in their place;
* `completes_runProgram` : the run of a tame program completes if the requires of its modules do.
-/

namespace ModuleLoader

open ModuleLoader.Action

namespace Builtin

/-- The function loads the file that a path leads to. -/
def loadsPath : Builtin → Bool
  | .load | .loadLib | .compileFile => true
  | _ => false

def requires : Builtin → Bool
  | .require | .tryRequire => true
  | _ => false

/-- The function that a name calls in a fresh loader. -/
def ofName? (name : String) : Option Builtin :=
  match table.get? ⟨name⟩ with
  | some (.builtin function) => some function
  | _ => none

theorem get?_table_of_ofName? {name : String} {function : Builtin}
    (h : ofName? name = some function) : table.get? ⟨name⟩ = some (.builtin function) := by
  unfold ofName? at h
  split at h
  · rename_i found hfound
    rw [hfound, Option.some.inj h]
  · cases h

end Builtin

namespace Script

/-- The module that an argument names where it is written out. -/
def Expression.moduleName? : Expression Literal → Option Symbol
  | .symbol name _ => some ⟨name⟩
  | .literal (.string text) _ => some ⟨text⟩
  | _ => none

/-- The argument is a string that is no text, and no call gets to see it. -/
def Expression.isBroken : Expression Literal → Bool
  | .literal (.broken _) _ => true
  | _ => false

/-- The call loads nothing by path, and if it is a require, its module is written out. -/
def isTameCall (function : Builtin) (arguments : List (Expression Literal)) : Bool :=
  !function.loadsPath && (!function.requires ||
    arguments.all (fun argument => argument.moduleName?.isSome || argument.isBroken))

def requiredByCall (function : Builtin) (arguments : List (Expression Literal)) : List Symbol :=
  if function.requires then arguments.filterMap Expression.moduleName? else []

mutual
/-- All calls in the expression are tame calls of functions that a fresh loader has. -/
def Expression.isTame : Expression Literal → Bool
  | .literal _ _ | .symbol _ _ | .reference _ _ => true
  | .array items _ => areTame items
  | .call name arguments _ =>
    (Builtin.ofName? name).any (isTameCall · arguments) && areTame arguments

def areTame : List (Expression Literal) → Bool
  | [] => true
  | item :: items => item.isTame && areTame items
end

mutual
/-- The modules that the expression requires and that are written out. -/
def Expression.required : Expression Literal → List Symbol
  | .literal _ _ | .symbol _ _ | .reference _ _ => []
  | .array items _ => requiredBy items
  | .call name arguments _ =>
    (Builtin.ofName? name).elim [] (requiredByCall · arguments) ++ requiredBy arguments

def requiredBy : List (Expression Literal) → List Symbol
  | [] => []
  | item :: items => item.required ++ requiredBy items
end

def Statement.expression : Statement Literal → Expression Literal
  | .evaluate expression | .assign _ expression _ => expression

def Program.isTame (program : Program) : Bool :=
  program.statements.all (fun statement => statement.expression.isTame)

def Program.required (program : Program) : List Symbol :=
  program.statements.flatMap (fun statement => statement.expression.required)

end Script

/-- The functions of a fresh loader are there, or functions of the host in their place. -/
def Machine.HasFunctions (m : Machine) : Prop :=
  ∀ name function, Builtin.ofName? name = some function →
    m.builtins.get? ⟨name⟩ = some (.builtin function) ∨
      ∃ other, m.builtins.get? ⟨name⟩ = some (.host other)

open Script

/-! ## Calls -/

section Calls
variable {R : Machine → Prop} (hR : Closed R) {exec exec' : Execute}

include hR

theorem completes_call {function : Builtin} (hpath : function.loadsPath = false)
    {arguments : List Value}
    (hrequire : function.requires → ∀ value ∈ arguments, ∀ s, value.symbol? = some s →
      Completes R (requireSymbol exec s) (requireSymbol exec' s)) :
    Completes R (function.call exec arguments) (function.call exec' arguments) := by
  have hstring (value : Value) : Completes R (stringOf value) (stringOf value) :=
    .of_orderly hR (orderly_stringOf value) (ends_stringOf value)
  have hfirst (hfunction : function.requires) : ∀ s, (firstArgument arguments).symbol? = some s →
      Completes R (requireSymbol exec s) (requireSymbol exec' s) := by
    cases arguments with
    | nil => exact fun s hs => by cases hs
    | cons value others => exact hrequire hfunction value List.mem_cons_self
  cases function with
  | require => exact (completes_requireOrFail (hfirst rfl) hR).map _
  | tryRequire => exact (completes_require (hfirst rfl)).map _
  | load | loadLib | compileFile => cases hpath
  | fileExists =>
      exact (hstring _).bind (fun path =>
        (Completes.of_orderly hR (orderly_fileExists path) (ends_fileExists path)).bind
          (fun _ => completes_pure _))
  | baseName => exact (hstring _).bind (fun _ => completes_pure _)
  | dirName => exact (hstring _).bind (fun _ => completes_pure _)
  | joinPath => exact (hstring _).bind (fun _ => (hstring _).bind (fun _ => completes_pure _))
  | expandPath =>
      refine (hstring _).bind (fun path =>
        (Completes.of_orderly hR (orderly_expandPath path) (ends_expandPath path)).bind
          (fun expanded => ?_))
      cases expanded with
      | none => exact completes_pure _
      | some path => exact completes_pure _
  | print => exact (completes_record hR rfl).bind (fun _ => completes_pure _)

variable (hfunctions : ∀ m, R m → m.HasFunctions)

omit hR in
include hfunctions in
theorem completes_callByName {name : String} {function : Builtin}
    (hname : Builtin.ofName? name = some function) (location : Location) {arguments : List Value}
    (hcall : Completes R (function.call exec arguments) (function.call exec' arguments)) :
    Completes R (callByName exec name location arguments)
      (callByName exec' name location arguments) := by
  intro m hm
  refine (completes_get m hm).bind (fun _ _ hget _ => ?_)
  cases hget
  have hcallable : m.callable? name = some (.builtin function) ∨
      ∃ other, m.callable? name = some (.host other) := by
    unfold Machine.callable?
    rcases hfunctions m hm name function hname with h | ⟨other, h⟩
    · exact Or.inl (by rw [h]; rfl)
    · exact Or.inr ⟨other, by rw [h]; rfl⟩
  rcases hcallable with h | ⟨other, h⟩
  · rw [h]
    dsimp only
    split
    · exact completes_fail _ m hm
    · exact hcall m hm
  · rw [h]
    dsimp only
    split
    · exact completes_fail _ m hm
    · unfold invoke
      dsimp only
      split
      · exact completes_pure _ m hm
      · exact completes_fail _ m hm

end Calls

/-! ## Expressions, statements and programs -/

/-- The value of an argument that is written out: it names the module, and is printed as its
name. -/
theorem evaluate_named {argument : Expression Literal} {s : Symbol}
    (h : argument.moduleName? = some s) :
    ∃ value, (∀ exec file, evaluate exec file argument = pure value) ∧
      value.symbol? = some s ∧ value.display = s.name := by
  unfold Expression.moduleName? at h
  split at h
  · cases h
    exact ⟨_, fun _ _ => rfl, rfl, rfl⟩
  · cases h
    exact ⟨_, fun _ _ => rfl, rfl, rfl⟩
  · cases h

theorem evaluate_broken {argument : Expression Literal} (h : argument.isBroken) (exec : Execute)
    (file : String) : evaluate exec file argument = throw .brokenText := by
  unfold Expression.isBroken at h
  split at h
  · rfl
  · cases h

theorem evaluateAll_named (file : String) {arguments : List (Expression Literal)}
    (h : arguments.all (fun argument => argument.moduleName?.isSome || argument.isBroken)) :
    (∀ exec, evaluateAll exec file arguments = throw .brokenText) ∨
    ∃ values, (∀ exec, evaluateAll exec file arguments = pure values) ∧
      ∀ value ∈ values, ∀ s, value.symbol? = some s →
        s ∈ arguments.filterMap Expression.moduleName? := by
  induction arguments with
  | nil => exact Or.inr ⟨[], fun _ => rfl, fun _ hv => by cases hv⟩
  | cons argument arguments ih =>
      rw [List.all_cons, Bool.and_eq_true, Bool.or_eq_true] at h
      obtain ⟨hnamed | hbroken, harguments⟩ := h
      swap
      · exact Or.inl (fun exec => by rw [evaluateAll, evaluate_broken hbroken, throw_bind])
      obtain ⟨name, hname⟩ := Option.isSome_iff_exists.1 hnamed
      obtain ⟨value, hvalue, hsymbol, -⟩ := evaluate_named hname
      obtain hstop | ⟨values, hvalues, hnames⟩ := ih harguments
      · exact Or.inl (fun exec => by rw [evaluateAll, hvalue, pure_bind, hstop, throw_bind])
      refine Or.inr ⟨value :: values, fun exec => ?_, fun v hv s hs => ?_⟩
      · rw [evaluateAll, hvalue, pure_bind, hvalues, pure_bind]
      · rw [List.filterMap_cons, hname]
        rcases List.mem_cons.1 hv with rfl | hv
        · obtain rfl := Option.some.inj (hsymbol.symm.trans hs)
          exact List.mem_cons_self
        · exact List.mem_cons_of_mem _ (hnames v hv s hs)

theorem completes_literalValue {R : Machine → Prop} (literal : Literal) :
    Completes R (literalValue literal) (literalValue literal) := by
  unfold literalValue
  split
  · exact completes_throw (fun h => by cases h)
  · exact completes_pure _

mutual
theorem completes_evaluate {R : Machine → Prop} (hR : Closed R)
    (hfunctions : ∀ m, R m → m.HasFunctions) {exec exec' : Execute} (file : String) :
    ∀ expression : Expression Literal, expression.isTame →
      (∀ s ∈ expression.required, Completes R (requireSymbol exec s) (requireSymbol exec' s)) →
        Completes R (evaluate exec file expression) (evaluate exec' file expression)
  | .literal value _, _, _ => completes_literalValue value
  | .symbol _ _, _, _ => completes_pure _
  | .array items _, htame, hrequire =>
    (completes_evaluateAll hR hfunctions file items htame hrequire).bind (fun _ => completes_pure _)
  | .reference name span, _, _ =>
    .of_orderly hR (orderly_lookUp name _) (ends_lookUp name _)
  | .call name arguments span, htame, hrequire => by
    rw [Expression.isTame, Bool.and_eq_true, Option.any_eq_true] at htame
    obtain ⟨⟨function, hname, hcall⟩, harguments⟩ := htame
    rw [isTameCall, Bool.and_eq_true, Bool.not_eq_true'] at hcall
    obtain ⟨hpath, hnamed⟩ := hcall
    rw [Expression.required, hname, Option.elim_some] at hrequire
    by_cases hfunction : function.requires
    · simp only [hfunction, Bool.not_true, Bool.false_or] at hnamed
      rw [requiredByCall, if_pos hfunction] at hrequire
      obtain hstop | ⟨values, hvalues, hnames⟩ := evaluateAll_named file hnamed
      · rw [evaluate, evaluate, hstop, hstop, throw_bind, throw_bind]
        exact completes_throw (fun h => by cases h)
      · rw [evaluate, evaluate, hvalues, hvalues, pure_bind, pure_bind]
        refine completes_callByName hfunctions hname _ (completes_call hR hpath ?_)
        exact fun _ value hv s hs => hrequire s (List.mem_append_left _ (hnames value hv s hs))
    · refine (completes_evaluateAll hR hfunctions file arguments harguments
        (fun s hs => hrequire s (List.mem_append_right _ hs))).bind (fun values => ?_)
      refine completes_callByName hfunctions hname _ (completes_call hR hpath ?_)
      exact fun h => absurd h hfunction

theorem completes_evaluateAll {R : Machine → Prop} (hR : Closed R)
    (hfunctions : ∀ m, R m → m.HasFunctions) {exec exec' : Execute} (file : String) :
    ∀ items : List (Expression Literal), areTame items →
      (∀ s ∈ requiredBy items, Completes R (requireSymbol exec s) (requireSymbol exec' s)) →
        Completes R (evaluateAll exec file items) (evaluateAll exec' file items)
  | [], _, _ => completes_pure _
  | item :: items, htame, hrequire => by
    rw [areTame, Bool.and_eq_true] at htame
    obtain ⟨hitem, hitems⟩ := htame
    have hfirst := completes_evaluate hR hfunctions file item hitem
      (fun s hs => hrequire s (List.mem_append_left _ hs))
    have hrest := completes_evaluateAll hR hfunctions file items hitems
      (fun s hs => hrequire s (List.mem_append_right _ hs))
    exact hfirst.bind (fun _ => hrest.bind (fun _ => completes_pure _))
end

section Programs
variable {R : Machine → Prop} (hR : Closed R) (hfunctions : ∀ m, R m → m.HasFunctions)
  {exec exec' : Execute}

include hR hfunctions

theorem completes_evaluateStatement (file : String) {statement : Statement Literal}
    (htame : statement.expression.isTame)
    (hrequire : ∀ s ∈ statement.expression.required,
      Completes R (requireSymbol exec s) (requireSymbol exec' s)) :
    Completes R (evaluateStatement exec file statement)
      (evaluateStatement exec' file statement) := by
  cases statement with
  | evaluate expression => exact completes_evaluate hR hfunctions file expression htame hrequire
  | assign name expression span =>
      exact (completes_evaluate hR hfunctions file expression htame hrequire).bind (fun _ =>
        (completes_record hR rfl).bind (fun _ => completes_pure _))

theorem completes_runStatements (file : String) {statements : List (Statement Literal)}
    (htame : ∀ statement ∈ statements, statement.expression.isTame)
    (hrequire : ∀ statement ∈ statements, ∀ s ∈ statement.expression.required,
      Completes R (requireSymbol exec s) (requireSymbol exec' s)) (last : Value) :
    Completes R (runStatements exec file last statements)
      (runStatements exec' file last statements) := by
  induction statements generalizing last with
  | nil => exact completes_pure last
  | cons statement rest ih =>
      have hfirst := completes_evaluateStatement hR hfunctions file
        (htame statement List.mem_cons_self) (hrequire statement List.mem_cons_self)
      refine hfirst.bind (ih (fun other hother => ?_) (fun other hother => ?_))
      · exact htame other (List.mem_cons_of_mem _ hother)
      · exact hrequire other (List.mem_cons_of_mem _ hother)

/-- The run of a tame program completes if the requires of its modules do. -/
theorem completes_runProgram {program : Program} (htame : program.isTame)
    (hrequire : ∀ s ∈ program.required,
      Completes R (requireSymbol exec s) (requireSymbol exec' s)) :
    Completes R (runProgram exec program) (runProgram exec' program) := by
  refine (completes_record hR rfl).bind (fun _ => ?_)
  refine completes_runStatements hR hfunctions program.file ?_ ?_ .nil
  · exact fun statement hs => List.all_eq_true.1 htame statement hs
  · exact fun statement hs s hrequired => hrequire s (List.mem_flatMap.2 ⟨statement, hs, hrequired⟩)

end Programs

end ModuleLoader
