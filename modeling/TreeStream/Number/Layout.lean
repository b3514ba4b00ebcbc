import TreeStream.Number.Shortest

/-!
# Numerals

How the shortest digits of a double are laid out.  A `Layout` records the decisions of one format;
the formats themselves are `plain` here and `Json.layout` with the values that it belongs to.

* `positional` places the point among the digits, filling with zeros.
* `scientific` puts one digit before the point and gives the power of ten.
* `Layout.write` chooses between them.
-/

namespace TreeStream.Number
set_option autoImplicit false

/-- The decimal numeral of a natural number. -/
def numeral (n : Nat) : List Char :=
  Nat.toDigits 10 n

/-- The decimal numeral of an integer. -/
def signedNumeral (i : Int) : List Char :=
  if i < 0 then '-' :: numeral i.natAbs else numeral i.natAbs

/-- The decisions of a number format. -/
structure Layout where
  /-- Which of two equally near digit strings is written. -/
  tie : Tie
  /-- The powers of ten of the first digit that are written without an exponent. -/
  isPositional : Int → Bool
  /-- What follows a number without a fraction that is written without an exponent. -/
  wholeEnd : List Char

/-- The digits with the point after the first `place` of them. -/
def positional (digits : List Char) (place : Int) (wholeEnd : List Char) : List Char :=
  if place ≤ 0 then ['0', '.'] ++ List.replicate (-place).toNat '0' ++ digits
  else if digits.length ≤ place.toNat then
    digits ++ List.replicate (place.toNat - digits.length) '0' ++ wholeEnd
  else digits.take place.toNat ++ ['.'] ++ digits.drop place.toNat

/-- One digit, the others after a point, and the power of ten with its sign. -/
def scientific (digits : List Char) (power : Int) : List Char :=
  let fraction := digits.drop 1
  digits.take 1 ++ (if fraction.isEmpty then [] else '.' :: fraction) ++
    ['e', if power < 0 then '-' else '+'] ++ numeral power.natAbs

/-- The numeral of the finite number `±mantissa * 2 ^ exponent`. -/
def Layout.finite (layout : Layout) (negative : Bool) (mantissa : Nat) (exponent : Int) :
    List Char :=
  let sign := if negative then ['-'] else []
  if mantissa = 0 then sign ++ positional ['0'] 1 layout.wholeEnd
  else
    let (factor, scale) := shortest layout.tie mantissa exponent
    let digits := numeral factor
    let place := digits.length + scale
    sign ++
      if layout.isPositional (place - 1) then positional digits place layout.wholeEnd
      else scientific digits (place - 1)

/-- The numeral of a double; an infinity is `inf`. -/
def Layout.write (layout : Layout) (x : Float) : List Char :=
  match shape x with
  | .nan => ['N', 'a', 'N']
  | .infinite negative => (if negative then ['-'] else []) ++ ['i', 'n', 'f']
  | .finite negative mantissa exponent => layout.finite negative mantissa exponent

/-- The plain format never uses an exponent, leaves a whole number without a fraction, and takes the
upper of two equally near digit strings. -/
def plain : Layout :=
  ⟨.up, fun _ => true, []⟩

end TreeStream.Number
