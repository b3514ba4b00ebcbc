import TreeStream.Json.Basic
import TreeStream.Number.Decimal
import TreeStream.Number.Layout

/-!
# Numbers in JSON texts

Numbers are read in one pass with a significand of 64 bits.  Digits that no longer fit are counted,
and the significand is scaled by a power of ten at the end; the result is the nearest double when
significand and power are exact doubles, and otherwise may be off by the roundings of the scaling.

* `takeSignificand` reads digits as long as they fit.
* `scale?` is the scaled double, or nothing when it is too large.
* `readNumber` reads a number from the front of a text.
* `layout` is the format in which doubles are written.
-/

namespace TreeStream.Json
set_option autoImplicit false
open Number (digitValue)

/-- Digits that keep the significand below `2 ^ 64`: the significand, how many there were, and the
rest of the text. -/
def takeSignificand (significand : Nat) : List Char → Nat × Nat × List Char
  | [] => (significand, 0, [])
  | c :: cs =>
    let next := 10 * significand + digitValue c
    if c.isDigit ∧ next < Nat.pow 2 64 then
      let (result, count, rest) := takeSignificand next cs
      (result, count + 1, rest)
    else (significand, 0, c :: cs)

/-- A power of ten as a double. -/
def powerOfTen (e : Nat) : Float :=
  Float.ofScientific 1 false e

/-- Division by a power of ten beyond the largest double goes by steps of `10 ^ 308`, until nothing
is left. -/
def scaleDown : Nat → Float → Nat → Float
  | 0, x, _ => x
  | steps + 1, x, e =>
    if e ≤ 308 then x / powerOfTen e
    else if x == 0.0 then x
    else scaleDown steps (x / powerOfTen 308) (e - 308)

/-- The significand times a power of ten; nothing when that exceeds every double. -/
def scale? (significand : Nat) (power : Int) : Option Float :=
  let x := Float.ofNat significand
  match power with
  | .ofNat e =>
    if e ≤ 308 then
      let scaled := x * powerOfTen e
      if scaled.isInf then none else some scaled
    else if significand = 0 then some x
    else none
  | .negSucc e => some (scaleDown 8 x (e + 1))

/-- A double with its sign, as a JSON number. -/
def signed (negative : Bool) (x : Float) : Json :=
  .real (if negative then -x else x)

/-- The end of a number: an optional power of ten.  A power beyond 32 bits makes the number zero or
too large. -/
def readPower (negative : Bool) (significand : Nat) (power : Int) (cs : List Char) :
    Except Fault (Json × List Char) :=
  let finish (power : Int) (rest : List Char) : Except Fault (Json × List Char) :=
    match scale? significand power with
    | some x => .ok (signed negative x, rest)
    | none => .error .malformed
  match cs with
  | c :: more =>
    if c = 'e' ∨ c = 'E' then
      let (down, digits) := Number.takeSign more
      let run := digits.takeWhile Char.isDigit
      let rest := digits.dropWhile Char.isDigit
      let exponent := Number.digitsValue run
      if run.isEmpty then .error .malformed
      else if exponent < Nat.pow 2 31 then
        finish (if down then power - exponent else power + exponent) rest
      else if significand ≠ 0 ∧ !down then .error .malformed
      else .ok (signed negative 0.0, rest)
    else finish power cs
  | [] => finish power []

/-- The rest of a number after its point.  Digits that do not fit are passed over. -/
def readFraction (negative : Bool) (significand : Nat) (power : Int) (cs : List Char) :
    Except Fault (Json × List Char) :=
  let (significand, count, rest) := takeSignificand significand cs
  let dropped := rest.takeWhile Char.isDigit
  if count = 0 ∧ dropped.isEmpty then .error .malformed
  else readPower negative significand (power - count) (rest.dropWhile Char.isDigit)

/-- A number after its sign. -/
def readUnsigned (negative : Bool) (cs : List Char) : Except Fault (Json × List Char) :=
  let (significand, count, rest) :=
    match cs with
    | '0' :: rest => (0, 1, rest)
    | _ => takeSignificand 0 cs
  let dropped := (rest.takeWhile Char.isDigit).length
  let beyond := rest.dropWhile Char.isDigit
  if count = 0 ∨ (significand = 0 ∧ dropped ≠ 0) then .error .malformed
  else
    match beyond with
    | '.' :: more => readFraction negative significand dropped more
    | _ =>
      if dropped ≠ 0 ∨ beyond.head? = some 'e' ∨ beyond.head? = some 'E' then
        readPower negative significand dropped beyond
      else if !negative then .ok (.int significand, beyond)
      else if significand = 0 ∨ Nat.pow 2 63 < significand then
        .ok (signed true (Float.ofNat significand), beyond)
      else .ok (.int (-significand), beyond)

/-- A number from the front of a text. -/
def readNumber : List Char → Except Fault (Json × List Char)
  | '-' :: cs => readUnsigned true cs
  | cs => readUnsigned false cs

/-- A double is written without an exponent when its first digit stands for a power of ten from
`-5` to `15`; one without a fraction then ends in `.0`.  Of two equally near digit strings the one
with the even last digit is written. -/
def layout : Number.Layout :=
  ⟨.even, fun power => -5 ≤ power && power ≤ 15, ['.', '0']⟩

end TreeStream.Json
