import TreeStream.Number.Decimal
import TreeStream.Number.Layout

/-!
# Numbers, truth values and times in TOML

A value without quotes is one word.  What it says is kept as a text in a canonical form: an integer
in decimal digits, a double in the plain format, a time with a `T` before the hours and without
zeros at the end of its fraction.

* `ungroup?` removes the underscores that group digits.
* `integer?`, `real?` and `time?` read the words of the three kinds; `TimeRules` says what a time
  may be.
* `scalar?` reads any word.
-/

namespace TreeStream.Settings.Toml
set_option autoImplicit false

/-! ## Numbers -/

/-- The digits of a run in which single underscores may stand between digits. -/
def ungroup? (isDigit : Char → Bool) : List Char → Option (List Char)
  | [] => none
  | [c] => if isDigit c then some [c] else none
  | c :: '_' :: next :: rest =>
    if isDigit c then (ungroup? isDigit (next :: rest)).map (c :: ·) else none
  | c :: next :: rest =>
    if isDigit c then (ungroup? isDigit (next :: rest)).map (c :: ·) else none

/-- The decimal digits of a run that has no zeros in front. -/
def natural? (cs : List Char) : Option (List Char) :=
  (ungroup? Char.isDigit cs).filter fun digits => digits.length = 1 ∨ digits.head? ≠ some '0'

/-- The value of a digit of a base up to sixteen. -/
def digitOf? (base : Nat) (c : Char) : Option Nat :=
  let value :=
    if c.isDigit then c.toNat - '0'.toNat
    else if c.isAlpha then c.toLower.toNat - 'a'.toNat + 10
    else base
  if value < base then some value else none

/-- The number of a grouped run of digits of a base. -/
def inBase? (base : Nat) (cs : List Char) : Option Nat :=
  (ungroup? (fun c => (digitOf? base c).isSome) cs).map fun digits =>
    digits.foldl (fun n c => base * n + (digitOf? base c).getD 0) 0

/-- An integer of 64 bits.  Only decimal ones have signs. -/
def integer? (word : List Char) : Option Int :=
  let magnitude : Option Int :=
    match word with
    | '0' :: 'x' :: digits => (inBase? 16 digits).map Int.ofNat
    | '0' :: 'o' :: digits => (inBase? 8 digits).map Int.ofNat
    | '0' :: 'b' :: digits => (inBase? 2 digits).map Int.ofNat
    | _ =>
      let (negative, digits) := Number.takeSign word
      (natural? digits).map fun digits =>
        let n : Int := Number.digitsValue digits
        if negative then -n else n
  magnitude.filter fun i => -(Nat.pow 2 63 : Int) ≤ i ∧ i < (Nat.pow 2 63 : Int)

/-- The parts of a word before and after the first of some characters. -/
def partsAt (isMark : Char → Bool) (cs : List Char) : List Char × Option (List Char) :=
  match cs.dropWhile fun c => !isMark c with
  | [] => (cs, none)
  | _ :: rest => (cs.takeWhile fun c => !isMark c, some rest)

/-- The power of ten of an optional exponent part. -/
def power? : Option (List Char) → Option Int
  | none => some 0
  | some cs =>
    let (negative, digits) := Number.takeSign cs
    (ungroup? Char.isDigit digits).map fun digits =>
      let n : Int := Number.digitsValue digits
      if negative then -n else n

/-- The digits of an optional fraction part. -/
def fraction? : Option (List Char) → Option (List Char)
  | none => some []
  | some cs => ungroup? Char.isDigit cs

/-- A double: a fraction, an exponent or both behind an integer, or a name.  One that is too large
is refused unless it is negative. -/
def real? (word : List Char) : Option Float :=
  let (negative, rest) := Number.takeSign word
  let sign (x : Float) : Float := if negative then -x else x
  if rest = ['i', 'n', 'f'] ∨ rest = ['n', 'a', 'n'] then (Number.named? rest).map sign
  else
    let (significand, exponent) := partsAt (fun c => c = 'e' || c = 'E') rest
    let (whole, fraction) := partsAt (· = '.') significand
    if exponent.isNone ∧ fraction.isNone then none
    else
      match natural? whole, fraction? fraction, power? exponent with
      | some whole, some fraction, some power =>
        let x := sign (Number.nearestDecimal whole fraction power)
        if x.isInf ∧ !negative then none else some x
      | _, _, _ => none

/-! ## Times -/

/-- How far the parts of a time may go. -/
structure TimeRules where
  lastHour : Nat := 23
  /-- The last hour and minute that a distance from universal time is written with. -/
  lastOffset : Nat × Nat := (23, 59)
  /-- A date without a time of day may have a distance from universal time. -/
  datesHaveOffsets : Bool := false
deriving Repr, DecidableEq, Inhabited

/-- The rules for a time in a string, which are loose. -/
def TimeRules.loose : TimeRules :=
  ⟨24, (99, 99), true⟩

/-- The number of two digits, when it is in a range. -/
def pair? (low high : Nat) (tens ones : Char) : Option Nat :=
  if tens.isDigit ∧ ones.isDigit then
    let n := Number.digitsValue [tens, ones]
    if low ≤ n ∧ n ≤ high then some n else none
  else none

/-- How many days a month has. -/
def daysIn (year month : Nat) : Nat :=
  if month = 2 then
    if year % 4 = 0 ∧ (year % 100 ≠ 0 ∨ year % 400 = 0) then 29 else 28
  else if month = 4 ∨ month = 6 ∨ month = 9 ∨ month = 11 then 30
  else 31

/-- The year, month and day in front of a word. -/
def takeDate : List Char → Option (List Char × List Char)
  | y₁ :: y₂ :: y₃ :: y₄ :: '-' :: m₁ :: m₂ :: '-' :: d₁ :: d₂ :: rest => do
    let century ← pair? 0 99 y₁ y₂
    let years ← pair? 0 99 y₃ y₄
    let month ← pair? 1 12 m₁ m₂
    let _ ← pair? 1 (daysIn (100 * century + years) month) d₁ d₂
    pure ([y₁, y₂, y₃, y₄, '-', m₁, m₂, '-', d₁, d₂], rest)
  | _ => none

/-- The fraction of a second in nine digits, without zeros at its end. -/
def fractionText (digits : List Char) : List Char :=
  match ((digits.take 9).reverse.dropWhile (· = '0')).reverse with
  | [] => []
  | kept => '.' :: kept

/-- The hours, minutes and seconds in front of a word, with an optional fraction. -/
def takeTime (rules : TimeRules) : List Char → Option (List Char × List Char)
  | h₁ :: h₂ :: ':' :: m₁ :: m₂ :: ':' :: s₁ :: s₂ :: rest => do
    let _ ← pair? 0 rules.lastHour h₁ h₂
    let _ ← pair? 0 59 m₁ m₂
    let _ ← pair? 0 60 s₁ s₂
    let time := [h₁, h₂, ':', m₁, m₂, ':', s₁, s₂]
    match rest with
    | '.' :: more =>
      let digits := more.takeWhile Char.isDigit
      if digits.isEmpty then none
      else pure (time ++ fractionText digits, more.dropWhile Char.isDigit)
    | _ => pure (time, rest)
  | _ => none

/-- A number below a hundred in two digits. -/
def twoDigits (n : Nat) : List Char :=
  [Nat.digitChar (n / 10), Nat.digitChar (n % 10)]

/-- The distance from universal time that ends a word, if any; at most a day. -/
def offset? (rules : TimeRules) : List Char → Option (List Char)
  | [] => some []
  | ['Z'] => some ['Z']
  | ['z'] => some ['Z']
  | [sign, h₁, h₂, ':', m₁, m₂] => do
    let hours ← pair? 0 rules.lastOffset.1 h₁ h₂
    let minutes ← pair? 0 rules.lastOffset.2 m₁ m₂
    let total := 60 * hours + minutes
    if (sign ≠ '+' ∧ sign ≠ '-') ∨ 24 * 60 < total then none
    else
      let sign := if total = 0 then '+' else sign
      pure (sign :: twoDigits (total / 60) ++ ':' :: twoDigits (total % 60))
  | _ => none

/-- A date, a time of day, or both and perhaps the distance from universal time. -/
def time? (rules : TimeRules) (word : List Char) : Option (List Char) :=
  match takeDate word with
  | some (date, []) => some date
  | some (date, mark :: rest) =>
    if mark = 'T' ∨ mark = 't' ∨ mark = ' ' then do
      let (time, rest) ← takeTime rules rest
      let offset ← offset? rules rest
      pure (date ++ 'T' :: time ++ offset)
    else if rules.datesHaveOffsets then (offset? rules (mark :: rest)).map (date ++ ·)
    else none
  | none =>
    match takeTime rules word with
    | some (time, []) => some time
    | _ => none

/-! ## Words -/

/-- The characters that words are made of. -/
def isWordChar (c : Char) : Bool :=
  c.isAlphanum || c = '+' || c = '-' || c = '_' || c = '.' || c = ':'

/-- The text of a word that is a value. -/
def scalar? (word : List Char) : Option (List Char) :=
  if word = "true".toList ∨ word = "false".toList then some word
  else
    match time? {} word, integer? word, real? word with
    | some time, _, _ => some time
    | none, some i, _ => some (Number.signedNumeral i)
    | none, none, some x => some (Number.plain.write x)
    | none, none, none => none

end TreeStream.Settings.Toml
