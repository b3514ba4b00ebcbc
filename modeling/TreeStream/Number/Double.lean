/-!
# Doubles as exact numbers

A finite double is a sign and a natural number times a power of two; questions about wholeness and
remainders are answered exactly on that form.

* `shape` reads the form off the bits, and `compose` builds the double of a form.
* `scaled?` multiplies by a power of two when the product is whole.
* `whole?` is the whole number that a double stands for, `smallWhole?` the same below `10 ^ 15`, and
  `index?` the same for positions in a sequence.
* `remainder` is what is left of a dividend after the greatest number of whole divisors.
-/

namespace TreeStream.Number
set_option autoImplicit false

/-- What a double stands for; a finite one is `±mantissa * 2 ^ exponent`. -/
inductive Shape where
  | nan
  | infinite (negative : Bool)
  | finite (negative : Bool) (mantissa : Nat) (exponent : Int)
deriving Repr, DecidableEq, Inhabited

/-- One sign bit, eleven exponent bits and fifty-two fraction bits. -/
def shape (x : Float) : Shape :=
  let bits := x.toBits.toNat
  let negative := Nat.pow 2 63 ≤ bits
  let exponent : Nat := bits / Nat.pow 2 52 % Nat.pow 2 11
  let fraction := bits % Nat.pow 2 52
  if exponent = 2047 then
    if fraction = 0 then .infinite negative else .nan
  else if exponent = 0 then .finite negative fraction (-1074)
  else .finite negative (Nat.pow 2 52 + fraction) ((exponent : Int) - 1075)

/-- The double `±mantissa * 2 ^ exponent`, for a mantissa below `2 ^ 53` and an exponent from
`-1074` on: the leading bit is moved to its place, or as near to it as the least exponent lets. -/
def compose (negative : Bool) (mantissa : Nat) (exponent : Int) : Float :=
  let sign := if negative then Nat.pow 2 63 else 0
  let shift := min (52 - mantissa.log2) (exponent + 1074).toNat
  let moved := mantissa * Nat.pow 2 shift
  let bits :=
    if moved < Nat.pow 2 52 then moved
    else moved - Nat.pow 2 52 + (exponent - shift + 1075).toNat * Nat.pow 2 52
  Float.ofBits (UInt64.ofNat (sign + bits))

/-- `mantissa * 2 ^ exponent`, when that is whole. -/
def scaled? (mantissa : Nat) (exponent : Int) : Option Nat :=
  match exponent with
  | .ofNat e => some (mantissa * Nat.pow 2 e)
  | .negSucc e =>
    if mantissa % Nat.pow 2 (e + 1) = 0 then some (mantissa / Nat.pow 2 (e + 1)) else none

/-- The whole number that the double stands for. -/
def whole? (x : Float) : Option Int :=
  match shape x with
  | .finite negative mantissa exponent =>
    (scaled? mantissa exponent).map fun n => if negative then -(n : Int) else n
  | _ => none

/-- The whole number that the double stands for, when its magnitude is below `10 ^ 15`. -/
def smallWhole? (x : Float) : Option Int :=
  (whole? x).filter fun i => i.natAbs < Nat.pow 10 15

/-- The position that the double names: a whole number that is not negative. -/
def index? (x : Float) : Option Nat :=
  match whole? x with
  | some (.ofNat n) => some n
  | _ => none

/-- The remainder has the dividend's sign; no remainder is left of an infinite dividend or for a
divisor of zero, and an infinite divisor leaves the dividend. -/
def remainder (x y : Float) : Float :=
  match shape x, shape y with
  | .finite negative m p, .finite _ n q =>
    if n = 0 then 0.0 / 0.0
    else
      let base := min p q
      compose negative (m * Nat.pow 2 (p - base).toNat % (n * Nat.pow 2 (q - base).toNat)) base
  | .finite _ _ _, .infinite _ => x
  | _, _ => 0.0 / 0.0

end TreeStream.Number
