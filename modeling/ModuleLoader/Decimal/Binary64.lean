/-!
# Binary floating-point numbers

A number of the 64-bit binary format, as its sign and the rank of its magnitude: the magnitudes
are numbered from zero in ascending order, infinity comes after the largest finite one and the
values that are no number come last.

* `twoTo`, `tenTo` : the powers of two and ten;
* `Binary64` : sign and rank; `Binary64.infinityRank`;
* `Binary64.parts` : a finite magnitude as `m · 2^q`;
* `Binary64.roundDiv` : a quotient rounded to nearest, a half to the even neighbour;
* `Binary64.nearestRank` : the magnitude nearest to a fraction;
* `Binary64.ofDigits`, `Binary64.ofText?` : the number that a decimal text denotes.
-/

namespace ModuleLoader.Decimal

def twoTo (n : Nat) : Nat := Nat.pow 2 n

def tenTo (n : Nat) : Nat := Nat.pow 10 n

/-- A sign and the rank of a magnitude. -/
structure Binary64 where
  negative : Bool
  rank : Nat
  deriving DecidableEq, Repr, Inhabited

namespace Binary64

/-- The rank of infinity; larger ranks are no numbers. -/
def infinityRank : Nat := 0x7FF * twoTo 52

def zero (negative : Bool) : Binary64 := ⟨negative, 0⟩

def infinity (negative : Bool) : Binary64 := ⟨negative, infinityRank⟩

/-- A value that is no number. Different labels give different ones. -/
def notANumber (label : Nat) : Binary64 := ⟨false, infinityRank + 1 + label⟩

/-- The significand and the binary exponent of a finite magnitude: below the normal range the
exponent stays and the leading bit is missing. -/
def parts (rank : Nat) : Nat × Int :=
  let field : Nat := rank / twoTo 52
  let fraction : Nat := rank % twoTo 52
  if field = 0 then (fraction, -1074) else (twoTo 52 + fraction, (field : Int) - 1075)

/-- A quotient rounded to the nearest integer, a half to the even one. -/
def roundDiv (num den : Nat) : Nat :=
  let quotient := num / den
  let rest := num % den
  if 2 * rest < den then quotient
  else if den < 2 * rest then quotient + 1
  else quotient + quotient % 2

def shifted (num den : Nat) (exponent : Int) : Nat × Nat :=
  if 0 ≤ exponent then (num, den * twoTo exponent.toNat) else (num * twoTo (-exponent).toNat, den)

/-- The binary exponent at which the fraction has 53 bits, or the least exponent. -/
def exponentOf (num den : Nat) : Int :=
  let low : Int := (num.log2 : Int) - den.log2 - 53
  let (n, d) := shifted num den low
  max (-1074) (if n / d < twoTo 53 then low else low + 1)

/-- The rank of the magnitude nearest to a positive fraction. Consecutive exponents are `2 ^ 52`
ranks apart, so a significand that rounds up to 54 bits lands on the next one. -/
def nearestRank (num den : Nat) : Nat :=
  let exponent := exponentOf num den
  let (n, d) := shifted num den exponent
  min infinityRank ((exponent + 1074).toNat * twoTo 52 + roundDiv n d)

/-- The number written by digits (each below ten) times a power of ten. Exponents at which every
digit string is zero or infinite are not multiplied out. -/
def ofDigits (negative : Bool) (digits : List Nat) (exponent : Int) : Binary64 :=
  let significant := digits.dropWhile (· == 0)
  let point : Int := significant.length + exponent
  if significant.isEmpty || point < -330 then zero negative
  else if 310 < point then infinity negative
  else
    let value := significant.foldl (fun n d => 10 * n + d) 0
    let rank :=
      if 0 ≤ exponent then nearestRank (value * tenTo exponent.toNat) 1
      else nearestRank value (tenTo (-exponent).toNat)
    ⟨negative, rank⟩

def digit? (c : Char) : Option Nat :=
  if c.isDigit then some (c.toNat - 48) else none

def natOfDigits (digits : List Nat) : Nat := digits.foldl (fun n d => 10 * n + d) 0

def exponent? : List Char → Option Int
  | [] => some 0
  | mark :: rest =>
    if mark ≠ 'e' ∧ mark ≠ 'E' then none
    else
      let (negative, digits) := match rest with
        | '-' :: digits => (true, digits)
        | '+' :: digits => (false, digits)
        | digits => (false, digits)
      match digits.mapM digit? with
      | some (d :: ds) =>
        let value : Int := natOfDigits (d :: ds)
        some (if negative then -value else value)
      | _ => none

/-- The number written by digits, an optional point among them and an optional exponent. -/
def unsignedOfText? (negative : Bool) (text : List Char) : Option Binary64 :=
  let whole := text.takeWhile Char.isDigit
  let rest := text.dropWhile Char.isDigit
  let (fraction, rest) := match rest with
    | '.' :: more => (more.takeWhile Char.isDigit, more.dropWhile Char.isDigit)
    | _ => ([], rest)
  if whole.isEmpty && fraction.isEmpty then none
  else do
    let exponent ← exponent? rest
    let digits ← (whole ++ fraction).mapM digit?
    return ofDigits negative digits (exponent - fraction.length)

/-- The number that a text denotes: a sign, then digits or one of the names `inf` and `nan`. -/
def ofText? (text : List Char) : Option Binary64 :=
  let (negative, rest) := match text with
    | '-' :: rest => (true, rest)
    | '+' :: rest => (false, rest)
    | rest => (false, rest)
  if rest = ['i', 'n', 'f'] then some (infinity negative)
  else if rest = ['n', 'a', 'n'] then some (notANumber 0)
  else unsignedOfText? negative rest

/-- The value is one of those that are no number. -/
def isNaN (x : Binary64) : Bool := infinityRank < x.rank

end Binary64

end ModuleLoader.Decimal
