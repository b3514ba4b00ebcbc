import TreeStream.Number.Double

/-!
# The shortest decimal that reads back

Every decimal in an interval around a double reads back as that double.  Of those with the fewest
digits the one nearest to the double is taken.

* `Rounding.holds` tests one decimal, in exact arithmetic.
* `onGrid?` chooses between the two decimals of a grid that enclose the double.
* `shortest` takes the coarsest grid with a hit.
-/

namespace TreeStream.Number
set_option autoImplicit false

/-- Which of two equally near decimals is taken. -/
inductive Tie where
  | up
  | even
deriving Repr, DecidableEq, Inhabited

/-- The interval of reals that read back as a double, over a common denominator: the double is
`4 * value`, its neighbours' midpoints are `4 * value - below` and `4 * value + 2`, each times
`unit`, and the midpoints belong to it when `closed` holds. -/
structure Rounding where
  value : Nat
  below : Nat
  unit : Nat
  closed : Bool

/-- The number with this numerator reads back as the double. -/
def Rounding.holds (r : Rounding) (numerator : Nat) : Bool :=
  let low := (4 * r.value - r.below) * r.unit
  let high := (4 * r.value + 2) * r.unit
  if r.closed then low ≤ numerator && numerator ≤ high
  else low < numerator && numerator < high

/-- The lower neighbour is nearer when it lies across a power of two. -/
def Rounding.ofDouble (mantissa : Nat) (exponent : Int) (unit : Nat) : Rounding where
  value := mantissa
  below := if mantissa = Nat.pow 2 52 ∧ -1074 < exponent then 1 else 2
  unit := unit
  closed := mantissa % 2 = 0

/-- The multiple of `10 ^ scale` that reads back as `mantissa * 2 ^ exponent` and is nearest to it,
as its factor. -/
def onGrid? (tie : Tie) (mantissa : Nat) (exponent scale : Int) : Option Nat :=
  let binary := exponent - 2
  let r := Rounding.ofDouble mantissa exponent (Nat.pow 2 binary.toNat * Nat.pow 10 (-scale).toNat)
  let step := Nat.pow 10 scale.toNat * Nat.pow 2 (-binary).toNat
  let exact := 4 * mantissa * r.unit
  let lower := exact / step
  match r.holds (lower * step), r.holds ((lower + 1) * step) with
  | false, false => none
  | true, false => some lower
  | false, true => some (lower + 1)
  | true, true =>
    match compare (2 * (exact - lower * step)) step with
    | .lt => some lower
    | .gt => some (lower + 1)
    | .eq => some (if tie = .even ∧ lower % 2 = 0 then lower else lower + 1)

/-- The number of decimal digits before the point of `mantissa * 2 ^ exponent`; for a number below
one it is minus the number of zeros that follow the point. -/
def decimalPlace (mantissa : Nat) (exponent : Int) : Int :=
  let whole := mantissa * Nat.pow 2 exponent.toNat / Nat.pow 2 (-exponent).toNat
  if whole = 0 then 1 - ((Nat.toDigits 10 (Nat.pow 2 (-exponent).toNat / mantissa)).length : Int)
  else (Nat.toDigits 10 whole).length

/-- The first grid with a hit, starting at `10 ^ scale`, among `tries` grids. -/
def firstGrid (tie : Tie) (mantissa : Nat) (exponent : Int) : Nat → Int → Nat × Int
  | 0, scale => (0, scale)
  | tries + 1, scale =>
    match onGrid? tie mantissa exponent scale with
    | some factor => (factor, scale)
    | none => firstGrid tie mantissa exponent tries (scale - 1)

/-- A factor and a power of ten without a common ten. -/
def dropZeros : Nat → Nat → Int → Nat × Int
  | 0, factor, scale => (factor, scale)
  | tries + 1, factor, scale =>
    if factor ≠ 0 ∧ factor % 10 = 0 then dropZeros tries (factor / 10) (scale + 1)
    else (factor, scale)

/-- The fewest digits, as `(factor, scale)` for `factor * 10 ^ scale`, that read back as
`mantissa * 2 ^ exponent`.  Seventeen digits are enough for every double. -/
def shortest (tie : Tie) (mantissa : Nat) (exponent : Int) : Nat × Int :=
  let (factor, scale) := firstGrid tie mantissa exponent 18 (decimalPlace mantissa exponent)
  dropZeros 18 factor scale

end TreeStream.Number
