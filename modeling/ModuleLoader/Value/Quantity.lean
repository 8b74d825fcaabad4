import ModuleLoader.Value

/-!
# The quantity of a number

* `Quantity` : a number as a fraction with a power of two, or infinite, or undefined;
* `Quantity.ofInt`, `Quantity.ofBinary64` : the quantities of both kinds of numbers;
* `Quantity.exceeds`, `Quantity.agrees` : the order of quantities and their equality;
* `Value.quantity?` : the quantity of a value that counts as a number.
-/

namespace ModuleLoader

open Decimal (Binary64)

/-- A number: `significand · 2 ^ exponent`, an infinity by its sign, or no number. -/
inductive Quantity where
  | finite (significand : Int) (exponent : Int)
  | infinite (negative : Bool)
  | undefined
  deriving DecidableEq, Repr

namespace Quantity

def ofInt (n : Int) : Quantity := .finite n 0

def ofBinary64 (x : Binary64) : Quantity :=
  if x.isNaN then .undefined
  else if x.rank = Binary64.infinityRank then .infinite x.negative
  else
    let (significand, exponent) := Binary64.parts x.rank
    .finite (if x.negative then -(significand : Int) else significand) exponent

/-- The first quantity is the greater one. Nothing is greater or less than what is no number. -/
def exceeds : Quantity → Quantity → Bool
  | .finite m p, .finite n q =>
    let least := min p q
    n * Decimal.twoTo (q - least).toNat < m * Decimal.twoTo (p - least).toNat
  | .infinite negative, .finite _ _ => !negative
  | .finite _ _, .infinite negative => negative
  | .infinite first, .infinite second => !first && second
  | _, _ => false

def agrees (a b : Quantity) : Bool :=
  a != .undefined && b != .undefined && !a.exceeds b && !b.exceeds a

end Quantity

def Value.quantity? : Value → Option Quantity
  | .bool value => some (.ofInt (if value then 1 else 0))
  | .int value => some (.ofInt value)
  | .float value => some (.ofBinary64 value)
  | _ => none

end ModuleLoader
