import ModuleLoader.CommandLine.Flag
import ModuleLoader.Text.Letter
import ModuleLoader.Text.Split

/-!
# Words of a command line

Each argument is sorted by itself before any is acted on. A flag may be written short or long,
long ones may be cut short as long as one flag is meant, and a value may be attached to a flag.

* `Complaint` : why a command line is refused, with the wording;
* `Word`, `dividerText` : what an argument is, and the one behind which only operands follow;
* `isNegativeNumber` : the arguments that begin with a dash and are numbers;
* `Word.ofText`, `Word.ofTexts` : an argument and a command line sorted.
-/

namespace ModuleLoader.CommandLine

inductive Complaint where
  | ambiguous (text : List Char) (spellings : List (List Char))
  /-- A value is attached to a flag that has none. -/
  | valueIgnored (flag : Flag) (value : List Char)
  | valueMissing (flag : Flag)
  | unrecognized (texts : List (List Char))
  deriving DecidableEq, Repr

def Complaint.message : Complaint → String
  | .ambiguous text spellings =>
    "ambiguous option: " ++ String.ofList text ++ " could match " ++
      ", ".intercalate (spellings.map String.ofList)
  | .valueIgnored flag value =>
    "argument " ++ flag.display ++ ": ignored explicit argument " ++
      Text.quoted (String.ofList value)
  | .valueMissing flag => "argument " ++ flag.display ++ ": expected one argument"
  | .unrecognized texts =>
    "unrecognized arguments: " ++ " ".intercalate (texts.map String.ofList)

inductive Word where
  /-- A flag, whether its spelling is the long one, and the text attached to it, directly or
  behind an equals sign. -/
  | flag (flag : Flag) (isLong : Bool) (attached : Option (List Char))
  /-- It looks like a flag and is none. -/
  | unknown (text : List Char)
  | operand (text : List Char)
  /-- The first `--`. -/
  | divider
  deriving DecidableEq, Repr

/-- The argument behind which all arguments are operands. -/
def dividerText : List Char := ['-', '-']

/-- The text of a number behind its dash: digits, or digits around a point of which only those
behind it are needed. A line end may follow. -/
def isNumeral (text : List Char) : Bool :=
  let digits := if text.getLast? = some '\n' then text.dropLast else text
  let rest := digits.dropWhile Text.isDecimalDigit
  match rest with
  | [] => !digits.isEmpty
  | '.' :: fraction => !fraction.isEmpty && fraction.all Text.isDecimalDigit
  | _ => false

def isNegativeNumber : List Char → Bool
  | '-' :: text => isNumeral text
  | _ => false

def exactFlag? (text : List Char) : Option (Flag × Bool) :=
  match Flag.all.find? (fun flag => flag.short == text) with
  | some flag => some (flag, false)
  | none => (Flag.all.find? (fun flag => flag.long == text)).map (fun flag => (flag, true))

def cutValue (text : List Char) : List Char × Option (List Char) :=
  if text.contains '=' then
    let (name, value) := Text.cut ['='] text
    (name, some value)
  else (text, none)

namespace Word

/-- An argument that begins with a dash and is no flag by itself: a long flag cut short, or a
short flag with more behind it. -/
def ofAbbreviation (text : List Char) : Except Complaint Word :=
  match text with
  | '-' :: '-' :: _ =>
    let (start, value) := cutValue text
    match Flag.all.filter (fun flag => start.isPrefixOf flag.long) with
    | [] => .ok (.unknown text)
    | [only] => .ok (.flag only true value)
    | flags => .error (.ambiguous text (flags.map Flag.long))
  | _ :: c :: value =>
    match Flag.ofLetter? c with
    | some named => .ok (.flag named false (some value))
    | none => .ok (.unknown text)
  | _ => .ok (.unknown text)

def ofText (text : List Char) : Except Complaint Word :=
  let (name, value) := cutValue text
  if text.head? != some '-' || text.length = 1 then .ok (.operand text)
  else
    match exactFlag? text, exactFlag? name with
    | some (named, isLong), _ => .ok (.flag named isLong none)
    | none, some (named, isLong) => .ok (.flag named isLong value)
    | none, none => do
      match ← ofAbbreviation text with
      | .unknown text =>
        if isNegativeNumber text || text.contains ' ' then return .operand text
        else return .unknown text
      | word => return word

def ofTexts : List (List Char) → Except Complaint (List Word)
  | [] => .ok []
  | text :: rest =>
    if text = dividerText then .ok (.divider :: rest.map Word.operand)
    else do
      let word ← ofText text
      let words ← ofTexts rest
      return word :: words

end Word

end ModuleLoader.CommandLine
