import ModuleLoader.Load.Require

/-!
# Evaluation

* `Builtin.call` : the functions that every script has;
* `invoke` : a call with its arguments evaluated and checked;
* `evaluate`, `evaluateStatement`, `runStatements` : expressions, statements and their sequence;
* `runProgram` : a program; scripts that it loads are run by a parameter;
* `execute` : a program that may nest scripts to a given depth;
* `Construct` : what a host can hand over for evaluation.
-/

namespace ModuleLoader

open Script (Expression Statement Literal Program)

/-- What a script gets of a require: the symbol if the module is new, else nil. -/
def requirementValue : Requirement → Value
  | .resolved m => .symbol m.symbol
  | _ => .nil

def firstArgument (arguments : List Value) : Value := arguments.headD .nil

/-- The effect and the value of a call; the arguments fit the signature. -/
def Builtin.call (exec : Execute) (function : Builtin) (arguments : List Value) :
    Action Value :=
  let argument := firstArgument arguments
  match function with
  | .require => requirementValue <$> requireOrFail exec argument
  | .tryRequire => requirementValue <$> ModuleLoader.require exec argument
  | .load => do loadScript exec (← stringOf argument)
  | .loadLib => do return .library (← loadLibrary exec (← stringOf argument))
  | .compileFile => do return .script (← ModuleLoader.compileFile (← stringOf argument))
  | .fileExists => do return .bool (← ModuleLoader.fileExists (← stringOf argument))
  | .baseName => do
    let path ← stringOf argument
    return .string ((Path.Policy.standard.baseName? path).getD path)
  | .dirName => do return .string (Path.Policy.standard.dirName (← stringOf argument))
  | .joinPath => do
    let directory ← stringOf argument
    let name ← stringOf (firstArgument arguments.tail)
    return .string (Path.Policy.standard.join directory name)
  | .expandPath => do
    match ← ModuleLoader.expandPath (← stringOf argument) with
    | some path => return .string path
    | none => return .nil
  | .print => do
    record (.printed (" ".intercalate (arguments.map Value.display) ++ "\n"))
    return .nil

def invoke (exec : Execute) (function : Callable) (arguments : List Value) : Action Value :=
  match function with
  | .builtin function => function.call exec arguments
  | .host function =>
    match function.call arguments with
    | .ok value => pure value
    | .error failure => fail (.host failure)
  | .script compiled => exec compiled.program

def callByName (exec : Execute) (name : String) (location : Script.Location)
    (arguments : List Value) : Action Value := do
  match (← get).callable? name with
  | none => fail (.evaluation (.undefinedFunction name) location)
  | some function =>
    match function.signature?.bind (fun signature => signature.flaw? arguments.length) with
    | some flaw => fail (.evaluation (.badCall name flaw) location)
    | none => invoke exec function arguments

def lookUp (name : String) (location : Script.Location) : Action Value := do
  match (← get).globals.get? ⟨name⟩ with
  | some value => pure value
  | none => fail (.evaluation (.undefinedVariable name) location)

def bindGlobal (name : Symbol) (value : Value) : Action Unit :=
  record (.bound name value)

def literalValue : Literal → Action Value
  | .broken _ => throw .brokenText
  | literal => pure (.ofLiteral literal)

mutual
/-- The value of an expression of a file. The arguments of a call are evaluated before its
function is looked up. -/
def evaluate (exec : Execute) (file : String) : Expression Literal → Action Value
  | .literal value _ => literalValue value
  | .symbol name _ => pure (.symbol ⟨name⟩)
  | .array items _ => do return .list (← evaluateAll exec file items)
  | .reference name span => lookUp name (.ofSpan file span)
  | .call name arguments span => do
    let values ← evaluateAll exec file arguments
    callByName exec name (.ofSpan file span) values

def evaluateAll (exec : Execute) (file : String) : List (Expression Literal) → Action (List Value)
  | [] => pure []
  | item :: items => do
    let value ← evaluate exec file item
    let values ← evaluateAll exec file items
    return value :: values
end

def evaluateStatement (exec : Execute) (file : String) : Statement Literal → Action Value
  | .evaluate expression => evaluate exec file expression
  | .assign name expression _ => do
    let value ← evaluate exec file expression
    bindGlobal ⟨name⟩ value
    return value

/-- The value of the last of some statements, or the one given when there are none. -/
def runStatements (exec : Execute) (file : String) (last : Value) :
    List (Statement Literal) → Action Value
  | [] => pure last
  | statement :: rest => do
    let value ← evaluateStatement exec file statement
    runStatements exec file value rest

/-- The value of a program: that of its last statement, or nil. -/
def runProgram (exec : Execute) (program : Program) : Action Value := do
  note (.running program.file program.statements.length)
  runStatements exec program.file .nil program.statements

/-- Runs a program in which scripts may be nested to the given depth, itself included. -/
def execute : (depth : Nat) → Execute
  | 0, _ => throw .exhausted
  | depth + 1, program => runProgram (execute depth) program

@[simp] theorem execute_zero (program : Program) : execute 0 program = throw .exhausted := rfl

@[simp] theorem execute_succ (depth : Nat) (program : Program) :
    execute (depth + 1) program = runProgram (execute depth) program := rfl

/-- What a host can hand over for evaluation. -/
inductive Construct where
  | statement (file : String) (statement : Statement Literal)
  | program (program : Program)
  | blank

/-- The value of a construct. Only a statement has one by itself. -/
def Construct.evaluate (exec : Execute) : Construct → Action Value
  | .statement file s => evaluateStatement exec file s
  | .program _ => fail (.unknownConstruct "Program")
  | .blank => fail (.unknownConstruct "Node")

end ModuleLoader
