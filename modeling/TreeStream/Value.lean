import TreeStream.Event
import TreeStream.Json.Writer

/-!
# Values

What expressions compute: the JSON kinds of data, with numbers that are doubles.

* `Value` and its equality, which is that of the numbers and texts inside: a number that is not a
  number equals nothing, and the two zeros are equal.
* `isTruthy` decides conditions, `typeName` is the name of a value's type.
* `toJson` and `ofJson` go to JSON and back; `ofEvent` is what expressions see of an event.
* `toText` is the form in which a value is put into the output.
-/

namespace TreeStream
set_option autoImplicit false

/-- The value of an expression; the entries of an object are in increasing order of their names. -/
inductive Value where
  | null
  | bool (b : Bool)
  | num (x : Float)
  | str (s : String)
  | list (items : List Value)
  | obj (entries : List (String × Value))
deriving Inhabited

namespace Value

/-- The name of a value's type. -/
def typeName : Value → String
  | .null => "null"
  | .bool _ => "bool"
  | .num _ => "number"
  | .str _ => "string"
  | .list _ => "list"
  | .obj _ => "object"

/-- `null`, `false`, zero, what is not a number and the empty text do not count as true. -/
def isTruthy : Value → Bool
  | .null => false
  | .bool b => b
  | .num x => x != 0.0 && !x.isNaN
  | .str s => s ≠ ""
  | .list _ => true
  | .obj _ => true

mutual

/-- Equality of values. -/
def equal : Value → Value → Bool
  | .null, .null => true
  | .bool a, .bool b => a == b
  | .num x, .num y => x == y
  | .str s, .str t => s == t
  | .list xs, .list ys => equalItems xs ys
  | .obj xs, .obj ys => equalEntries xs ys
  | _, _ => false

/-- Equality of lists, item by item. -/
def equalItems : List Value → List Value → Bool
  | [], [] => true
  | x :: xs, y :: ys => equal x y && equalItems xs ys
  | _, _ => false

/-- Equality of objects, entry by entry. -/
def equalEntries : List (String × Value) → List (String × Value) → Bool
  | [], [] => true
  | (a, x) :: xs, (b, y) :: ys => a == b && equal x y && equalEntries xs ys
  | _, _ => false

end

instance : BEq Value := ⟨equal⟩

/-- A number as JSON: whole numbers of magnitude below `10 ^ 15` become integers, and what is not
finite becomes `null`. -/
def numToJson (x : Float) : Json :=
  match Number.smallWhole? x with
  | some i => .int i
  | none => if x.isFinite then .real x else .null

mutual

/-- A value as JSON. -/
def toJson : Value → Json
  | .null => .null
  | .bool b => .bool b
  | .num x => numToJson x
  | .str s => .str s
  | .list items => .arr (itemsToJson items)
  | .obj entries => .obj (entriesToJson entries)

/-- The items of a list as JSON. -/
def itemsToJson : List Value → List Json
  | [] => []
  | item :: items => toJson item :: itemsToJson items

/-- The entries of an object as JSON. -/
def entriesToJson : List (String × Value) → List (String × Json)
  | [] => []
  | (name, value) :: entries => (name, toJson value) :: entriesToJson entries

end

mutual

/-- The value that a JSON text denotes: every number becomes the nearest double. -/
def ofJson : Json → Value
  | .null => .null
  | .bool b => .bool b
  | .int i => .num (Float.ofInt i)
  | .real x => .num x
  | .str s => .str s
  | .arr items => .list (itemsOfJson items)
  | .obj members => .obj (entriesOfJson members)

/-- The items of an array. -/
def itemsOfJson : List Json → List Value
  | [] => []
  | item :: items => ofJson item :: itemsOfJson items

/-- The members of an object. -/
def entriesOfJson : List (String × Json) → List (String × Value)
  | [] => []
  | (name, value) :: members => (name, ofJson value) :: entriesOfJson members

end

/-- The object of a list of entries; the last entry of a name counts. -/
def ofEntries (entries : List (String × Value)) : Value :=
  .obj (Entries.putAll entries [])

/-- An event as an object: its kind under `type`, and what it carries under the names that it has in
streams. -/
def ofEvent (event : Event) : Value :=
  let kind := ("type", Value.str event.kind.name)
  match event with
  | .start name => ofEntries [kind, ("name", .str name)]
  | .close => ofEntries [kind]
  | .text content => ofEntries [kind, ("text", .str content)]
  | .attr name value => ofEntries [kind, ("name", .str name), ("value", .str value)]

/-- A number in the output: whole numbers of magnitude below `10 ^ 15` as integers, so that neither
zero has a sign, and others in the plain format. -/
def numToText (x : Float) : List Char :=
  match Number.smallWhole? x with
  | some i => Number.signedNumeral i
  | none => Number.plain.write x

mutual

/-- The characters of a value in the output: texts stand as they are, the items of a list are
separated by commas, and an object is its JSON. -/
def toChars : Value → List Char
  | .null => ['n', 'u', 'l', 'l']
  | .bool true => ['t', 'r', 'u', 'e']
  | .bool false => ['f', 'a', 'l', 's', 'e']
  | .num x => numToText x
  | .str s => s.toList
  | .list [] => []
  | .list (item :: items) => toChars item ++ itemsToChars items
  | .obj entries => Json.write (.obj (entriesToJson entries))

/-- The items of a list that follow its first one. -/
def itemsToChars : List Value → List Char
  | [] => []
  | item :: items => [','] ++ toChars item ++ itemsToChars items

end

/-- The form of a value in the output. -/
def toText (value : Value) : String :=
  String.ofList (toChars value)

end Value
end TreeStream
