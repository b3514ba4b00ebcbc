import TreeStream.Number.Double

/-!
# Reading decimals

A decimal numeral stands for the double nearest to it.

* `digitsValue` is the number that a run of digits denotes.
* `nearest` is the double nearest to a whole number times a power of ten.
* `decimal?` reads a whole text as a signed numeral with optional fraction and exponent, or as one
  of the names of the numbers that have no numeral.
-/

namespace TreeStream.Number
set_option autoImplicit false

/-- The value of one decimal digit. -/
def digitValue (c : Char) : Nat :=
  c.toNat - '0'.toNat

/-- The number that a run of decimal digits denotes, most significant digit first. -/
def digitsValue (digits : List Char) : Nat :=
  digits.foldl (fun n c => 10 * n + digitValue c) 0

/-- The double nearest to `factor * 10 ^ scale`.  A number of more than 400 digits before the point
is beyond every double, and one that starts with 400 zeros after it is nearest to zero. -/
def nearest (factor : Nat) (scale : Int) : Float :=
  let place := (Nat.toDigits 10 factor).length + scale
  if factor = 0 then 0.0
  else if place < -400 then 0.0
  else if 400 < place then 1.0 / 0.0
  else
    match scale with
    | .ofNat e => Float.ofScientific factor false e
    | .negSucc e => Float.ofScientific factor true (e + 1)

/-- The double nearest to the numeral `whole.fraction`, times a power of ten. -/
def nearestDecimal (whole fraction : List Char) (power : Int) : Float :=
  nearest (digitsValue (whole ++ fraction)) (power - fraction.length)

/-- An optional sign: whether it is a minus, and what follows it. -/
def takeSign : List Char → Bool × List Char
  | '-' :: cs => (true, cs)
  | '+' :: cs => (false, cs)
  | cs => (false, cs)

/-- The power of ten that a complete exponent part gives; no exponent part is the power zero. -/
def exponent? : List Char → Option Int
  | [] => some 0
  | c :: cs =>
    if c = 'e' ∨ c = 'E' then
      let (negative, digits) := takeSign cs
      if digits.isEmpty ∨ !digits.all Char.isDigit then none
      else some (if negative then -(digitsValue digits : Int) else digitsValue digits)
    else none

/-- A numeral without a sign: digits with at most one point, and at least one digit. -/
def unsigned? (cs : List Char) : Option Float :=
  let whole := cs.takeWhile Char.isDigit
  let rest := cs.dropWhile Char.isDigit
  let (fraction, rest) :=
    match rest with
    | '.' :: more => (more.takeWhile Char.isDigit, more.dropWhile Char.isDigit)
    | _ => ([], rest)
  if whole.isEmpty ∧ fraction.isEmpty then none
  else (exponent? rest).map (nearestDecimal whole fraction)

/-- The numbers that have no numeral go by a name, in any letter case. -/
def named? (cs : List Char) : Option Float :=
  let name := cs.map Char.toLower
  if name = ['i', 'n', 'f'] ∨ name = ['i', 'n', 'f', 'i', 'n', 'i', 't', 'y'] then
    some (1.0 / 0.0)
  else if name = ['n', 'a', 'n'] then some (0.0 / 0.0)
  else none

/-- A signed numeral or name that is the whole text. -/
def decimal? (cs : List Char) : Option Float :=
  let (negative, rest) := takeSign cs
  (named? rest <|> unsigned? rest).map fun x => if negative then -x else x

end TreeStream.Number
