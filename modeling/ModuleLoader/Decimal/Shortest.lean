import ModuleLoader.Decimal.Binary64

/-!
# Shortest decimal text

The decimal text of a binary number has the fewest digits that read back as the same number, and
of those the value nearest to it.

* `Shortest.Scale` : a magnitude and the ends of the interval of reals that round to it, over one
  common unit;
* `Shortest.onGrid?` : a multiple of a power of ten inside that interval, the nearer of the two
  neighbours of the value;
* `Shortest.digits` : the fewest digits, with the place of the decimal point;
* `Binary64.text` : positional between `10^-4` and `10^16`, else with an exponent.
-/

namespace ModuleLoader.Decimal

namespace Shortest

/-- A value and its interval as multiples of `2 ^ exponent`; the ends belong to the interval
when `closed`. -/
structure Scale where
  low : Nat
  value : Nat
  high : Nat
  exponent : Int
  closed : Bool

/-- The interval of the reals nearest to the magnitude `m · 2^q`. Below a power of two the
neighbours are half as far apart. -/
def Scale.ofRank (rank : Nat) : Scale :=
  let (m, q) := Binary64.parts rank
  let below := if m = twoTo 52 ∧ -1074 < q then 1 else 2
  ⟨4 * m - below, 4 * m, 4 * m + 2, q - 2, m % 2 == 0⟩

/-- Factors `(a, b)` such that `c · 10^power` and `x · 2^exponent` compare as `c · a` and
`x · b`. -/
def factors (power exponent : Int) : Nat × Nat :=
  (tenTo power.toNat * twoTo (-exponent).toNat, tenTo (-power).toNat * twoTo exponent.toNat)

/-- The multiple of `10 ^ power` nearest to the value among those in the interval. Only the two
neighbours of the value need a test; an exact tie goes to the even one. -/
def onGrid? (s : Scale) (power : Int) : Option Nat :=
  let (a, b) := factors power s.exponent
  let floor := s.value * b / a
  let inside (c : Nat) : Bool :=
    if s.closed then s.low * b ≤ c * a && c * a ≤ s.high * b
    else s.low * b < c * a && c * a < s.high * b
  match inside floor, inside (floor + 1) with
  | true, false => some floor
  | false, true => some (floor + 1)
  | false, false => none
  | true, true =>
    let lowGap := s.value * b - floor * a
    let highGap := (floor + 1) * a - s.value * b
    if lowGap < highGap then some floor
    else if highGap < lowGap then some (floor + 1)
    else some (floor + floor % 2)

/-- The number of digits before the decimal point: the least power of ten above the value. -/
def pointOf (s : Scale) : Int :=
  let log2 : Int := (s.value.log2 : Int) + s.exponent
  let guess := Int.fdiv (log2 * 30103) 100000 + 1
  let (a, b) := factors guess s.exponent
  if s.value * b < a then guess else guess + 1

/-- The first grid with a hit, from `count` digits on; seventeen digits always suffice. -/
def search (s : Scale) (point : Int) : (tries count : Nat) → Nat × Int
  | 0, _ => (0, 0)
  | tries + 1, count =>
    match onGrid? s (point - count) with
    | some c => (c, point - count)
    | none => search s point tries (count + 1)

/-- The digits without trailing zeros, and the place of the point after the first of them. -/
def digits (rank : Nat) : List Char × Int :=
  let s := Scale.ofRank rank
  let (c, power) := search s (pointOf s) 17 1
  let all := Nat.toDigits 10 c
  ((all.reverse.dropWhile (· == '0')).reverse, power + all.length)

def exponentText (n : Int) : List Char :=
  let digits := Nat.toDigits 10 n.natAbs
  let padded := if digits.length < 2 then '0' :: digits else digits
  (if n < 0 then '-' else '+') :: padded

def positional (digits : List Char) (point : Int) : List Char :=
  if point ≤ 0 then '0' :: '.' :: List.replicate (-point).toNat '0' ++ digits
  else
    let n := point.toNat
    if digits.length ≤ n then digits ++ List.replicate (n - digits.length) '0' ++ ['.', '0']
    else digits.take n ++ '.' :: digits.drop n

def scientific (digits : List Char) (point : Int) : List Char :=
  let mantissa := match digits with
    | d :: e :: rest => d :: '.' :: e :: rest
    | short => short
  mantissa ++ 'e' :: exponentText (point - 1)

def magnitude (rank : Nat) : List Char :=
  if rank = 0 then ['0', '.', '0']
  else
    let (ds, point) := digits rank
    if -4 < point ∧ point ≤ 16 then positional ds point else scientific ds point

end Shortest

def Binary64.text (x : Binary64) : String :=
  if x.isNaN then "nan"
  else
    let body := if x.rank = infinityRank then ['i', 'n', 'f'] else Shortest.magnitude x.rank
    String.ofList (if x.negative then '-' :: body else body)

end ModuleLoader.Decimal
