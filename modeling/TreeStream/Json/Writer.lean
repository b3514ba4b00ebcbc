import TreeStream.Json.Numeral
import TreeStream.Text.Quoted

/-!
# Writing JSON

The compact form: no blanks, members in the order of the object.

* `escape` is the form of one character inside a string, `writeString` that of a string.
* `write` is the form of a value, and `compact` the same as a `String`.
-/

namespace TreeStream.Json
set_option autoImplicit false

/-- Two hexadecimal digits. -/
def hexPair (n : Nat) : List Char :=
  Text.hexDigits (n / 16) ++ Text.hexDigits (n % 16)

/-- Quotes, backslashes and control characters are escaped, all else stands for itself. -/
def escape (c : Char) : List Char :=
  if c = '"' then ['\\', '"']
  else if c = '\\' then ['\\', '\\']
  else if c = '\x08' then ['\\', 'b']
  else if c = '\x0c' then ['\\', 'f']
  else if c = '\n' then ['\\', 'n']
  else if c = '\r' then ['\\', 'r']
  else if c = '\t' then ['\\', 't']
  else if c.toNat < 0x20 then ['\\', 'u', '0', '0'] ++ hexPair c.toNat
  else [c]

/-- A string between quotes. -/
def writeString (s : String) : List Char :=
  ['"'] ++ s.toList.flatMap escape ++ ['"']

/-- JSON has no form for the doubles that are not finite, and `null` stands in for them. -/
def writeReal (x : Float) : List Char :=
  if x.isFinite then layout.write x else ['n', 'u', 'l', 'l']

mutual

/-- The compact form of a value. -/
def write : Json → List Char
  | .null => ['n', 'u', 'l', 'l']
  | .bool true => ['t', 'r', 'u', 'e']
  | .bool false => ['f', 'a', 'l', 's', 'e']
  | .int i => Number.signedNumeral i
  | .real x => writeReal x
  | .str s => writeString s
  | .arr [] => ['[', ']']
  | .arr (item :: items) => ['['] ++ write item ++ writeItems items ++ [']']
  | .obj [] => ['\x7b', '\x7d']
  | .obj ((name, value) :: members) =>
    ['\x7b'] ++ writeString name ++ [':'] ++ write value ++ writeMembers members ++ ['\x7d']

/-- The items of an array that follow its first one. -/
def writeItems : List Json → List Char
  | [] => []
  | item :: items => [','] ++ write item ++ writeItems items

/-- The members of an object that follow its first one. -/
def writeMembers : List (String × Json) → List Char
  | [] => []
  | (name, value) :: members =>
    [','] ++ writeString name ++ [':'] ++ write value ++ writeMembers members

end

/-- The compact text of a value. -/
def compact (json : Json) : String :=
  String.ofList (write json)

end TreeStream.Json
