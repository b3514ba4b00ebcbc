import TreeStream.Json.Numeral

/-!
# Reading JSON

Readers take what they recognise from the front of a text and give the rest of it.

* `readText` reads the inside of a string, `readScalar` a value that is not a container.
* `readItems` and `readMembers` read the inside of an array and of an object, given a reader of
  values.
* `readValue count depth` reads a value whose containers are nested at most `depth` deep and hold at
  most `count` parts each.
* `parse` reads a text that is one value, with containers nested at most `maxDepth` deep.
-/

namespace TreeStream.Json
set_option autoImplicit false

/-- Takes a value from the front of a text. -/
abbrev Reader (α : Type) := List Char → Except Fault (α × List Char)

/-- The blanks between the parts of a JSON text. -/
def isBlank (c : Char) : Bool :=
  c = ' ' || c = '\n' || c = '\t' || c = '\r'

/-- The text without leading blanks. -/
def skipBlanks (cs : List Char) : List Char :=
  cs.dropWhile isBlank

/-- The value of one hexadecimal digit, of either case. -/
def hexValue? (c : Char) : Option Nat :=
  if c.isDigit then some (c.toNat - '0'.toNat)
  else if 'a' ≤ c ∧ c ≤ 'f' then some (c.toNat - 'a'.toNat + 10)
  else if 'A' ≤ c ∧ c ≤ 'F' then some (c.toNat - 'A'.toNat + 10)
  else none

/-- The code unit of four hexadecimal digits. -/
def unit? (a b c d : Char) : Option Nat := do
  let a ← hexValue? a
  let b ← hexValue? b
  let c ← hexValue? c
  let d ← hexValue? d
  pure (((a * 16 + b) * 16 + c) * 16 + d)

/-- The unit is the first half of a surrogate pair. -/
def isLeading (unit : Nat) : Bool :=
  0xd800 ≤ unit && unit ≤ 0xdbff

/-- The unit is the second half of a surrogate pair. -/
def isTrailing (unit : Nat) : Bool :=
  0xdc00 ≤ unit && unit ≤ 0xdfff

/-- The character of a surrogate pair. -/
def pairChar (leading trailing : Nat) : Char :=
  Char.ofNat (0x10000 + (leading - 0xd800) * 0x400 + (trailing - 0xdc00))

/-- The character that a letter after a backslash stands for. -/
def shortEscape? : Char → Option Char
  | '"' => some '"'
  | '\\' => some '\\'
  | '/' => some '/'
  | 'b' => some '\x08'
  | 'f' => some '\x0c'
  | 'n' => some '\n'
  | 'r' => some '\r'
  | 't' => some '\t'
  | _ => none

/-- The rest of a string after its opening quote, up to and with its closing one.  Control
characters must be escaped, and the two halves of a surrogate pair must stand together. -/
def readText : List Char → Except Fault (List Char × List Char)
  | [] => .error .malformed
  | '"' :: rest => .ok ([], rest)
  | '\\' :: 'u' :: a :: b :: c :: d :: rest =>
    match unit? a b c d with
    | none => .error .malformed
    | some unit =>
      if isLeading unit then
        match rest with
        | '\\' :: 'u' :: a' :: b' :: c' :: d' :: rest' =>
          match unit? a' b' c' d' with
          | none => .error .malformed
          | some unit' =>
            if isTrailing unit' then
              (readText rest').map fun result => (pairChar unit unit' :: result.1, result.2)
            else .error .malformed
        | _ => .error .malformed
      else if isTrailing unit then .error .malformed
      else (readText rest).map fun result => (Char.ofNat unit :: result.1, result.2)
  | '\\' :: c :: rest =>
    match shortEscape? c with
    | none => .error .malformed
    | some meant => (readText rest).map fun result => (meant :: result.1, result.2)
  | c :: rest =>
    if c = '\\' ∨ c.toNat < 0x20 then .error .malformed
    else (readText rest).map fun result => (c :: result.1, result.2)

/-- The rest of a string after its opening quote, as a `String`. -/
def readString : Reader String := fun cs =>
  (readText cs).map fun result => (String.ofList result.1, result.2)

/-- A value that is not a container. -/
def readScalar : Reader Json
  | 'n' :: 'u' :: 'l' :: 'l' :: rest => .ok (.null, rest)
  | 't' :: 'r' :: 'u' :: 'e' :: rest => .ok (.bool true, rest)
  | 'f' :: 'a' :: 'l' :: 's' :: 'e' :: rest => .ok (.bool false, rest)
  | '"' :: rest => (readString rest).map fun result => (.str result.1, result.2)
  | cs => readNumber cs

/-- The items of an array after its bracket and before it is known to be empty, up to and with the
closing bracket; at most `count` of them. -/
def readItems (value : Reader Json) : Nat → Reader (List Json)
  | 0, _ => .error .malformed
  | count + 1, cs => do
    let (item, rest) ← value cs
    match skipBlanks rest with
    | ',' :: rest => do
      let (items, rest) ← readItems value count rest
      .ok (item :: items, rest)
    | ']' :: rest => .ok ([item], rest)
    | _ => .error .malformed

/-- The name of a member, from its opening quote on. -/
def readName : Reader String := fun cs =>
  match skipBlanks cs with
  | '"' :: rest => readString rest
  | _ => .error .malformed

/-- The text after the colon that must come next. -/
def expectColon (cs : List Char) : Except Fault (List Char) :=
  match skipBlanks cs with
  | ':' :: rest => .ok rest
  | _ => .error .malformed

/-- The members of an object after its brace, up to and with the closing brace, in the order of the
text; at most `count` of them. -/
def readMembers (value : Reader Json) : Nat → Reader (List (String × Json))
  | 0, _ => .error .malformed
  | count + 1, cs => do
    let (name, rest) ← readName cs
    let rest ← expectColon rest
    let (item, rest) ← value rest
    match skipBlanks rest with
    | ',' :: rest => do
      let (members, rest) ← readMembers value count rest
      .ok ((name, item) :: members, rest)
    | '\x7d' :: rest => .ok ([(name, item)], rest)
    | _ => .error .malformed

/-- A value whose containers are nested at most `depth` deep and hold at most `count` parts each. -/
def readValue (count : Nat) : Nat → Reader Json
  | 0, cs => readScalar (skipBlanks cs)
  | depth + 1, cs =>
    match skipBlanks cs with
    | '[' :: rest =>
      match skipBlanks rest with
      | ']' :: rest => .ok (.arr [], rest)
      | rest => do
        let (items, rest) ← readItems (readValue count depth) count rest
        .ok (.arr items, rest)
    | '\x7b' :: rest =>
      match skipBlanks rest with
      | '\x7d' :: rest => .ok (.obj [], rest)
      | rest => do
        let (members, rest) ← readMembers (readValue count depth) count rest
        .ok (ofMembers members, rest)
    | rest => readScalar rest

/-- How deep containers may be nested. -/
def maxDepth : Nat := 127

/-- A value that makes up the whole text.  The reader is told how many parts the text can have. -/
def whole {α : Type} (read : Nat → Reader α) (cs : List Char) : Except Fault α := do
  let (value, rest) ← read cs.length cs
  if (skipBlanks rest).isEmpty then .ok value else .error .malformed

/-- Reads a text that is exactly one JSON value. -/
def parse (text : String) : Except Fault Json :=
  whole (fun count => readValue count maxDepth) text.toList

end TreeStream.Json
