import TreeStream.Json.Basic
import TreeStream.Number.Decimal

/-!
# Trees of settings

Settings come from several places, each of which gives some of them.  What a place gives is a tree:
texts at the leaves, under names or in lists.  Letter case does not count in names.

* `Tree.put` puts a tree at a path.  A table put onto a table is merged into it name by name; what
  else stood there is replaced.
* `Tree.text?` is the text at a path.
* `pathOf` is the path that a name denotes: names between points, and indexes between brackets.
* `Tree.ofJson` is the tree of a JSON value; only strings are texts.
-/

namespace TreeStream.Settings
set_option autoImplicit false

/-- A letter in lower case.  Of the letters beyond ASCII only the Kelvin sign has one in ASCII. -/
def lowerLetter (c : Char) : Char :=
  if c = '\u212a' then 'k' else c.toLower

/-- A name in lower case. -/
def lower (name : String) : String :=
  name.map lowerLetter

/-- One step of a path. -/
inductive Step where
  | name (name : String)
  /-- An item of a list, which a negative index counts from the end. -/
  | item (index : Int)
deriving Repr, DecidableEq, Inhabited

/-- The position of an item in a list of a length. -/
def position (index : Int) (length : Nat) : Nat :=
  if index < 0 then length - index.natAbs else index.natAbs

/-! ## Trees -/

/-- Settings as one place gives them; the entries of a table are in increasing order of their
names. -/
inductive Tree where
  | text (content : String)
  /-- A value that does not count as a text. -/
  | other
  | list (items : List Tree)
  | table (entries : List (String × Tree))
deriving Inhabited

namespace Tree

/-- No settings. -/
def empty : Tree :=
  .table []

/-- The entries of a table; nothing else has any. -/
def entries : Tree → List (String × Tree)
  | .table entries => entries
  | _ => []

/-- The items of a list; nothing else has any. -/
def items : Tree → List Tree
  | .list items => items
  | _ => []

mutual

/-- What stands at a place after a tree has been put there. -/
def graft : Tree → Option Tree → Tree
  | .table entries, place => graftEntries entries (place.getD empty)
  | tree, _ => tree

/-- Puts entries under their names in lower case. -/
def graftEntries : List (String × Tree) → Tree → Tree
  | [], place => place
  | (name, tree) :: rest, place =>
    let below := graft tree (Entries.get? (lower name) place.entries)
    graftEntries rest (.table (Entries.put (lower name) below place.entries))

end

/-- Sets an item of a list, which grows if it is too short. -/
def setItem (i : Nat) (item : Tree) (items : List Tree) : List Tree :=
  (items ++ List.replicate (i + 1 - items.length) Tree.other).set i item

/-- What stands at a place after a tree has been put at a path from there.  What stands in the way
of the path gives place to tables and lists. -/
def put (tree : Tree) : List Step → Option Tree → Tree
  | [], place => graft tree place
  | .name name :: path, place =>
    let known := (place.getD empty).entries
    .table (Entries.put name (put tree path (Entries.get? name known)) known)
  | .item index :: path, place =>
    let known := (place.getD empty).items
    let i := position index known.length
    .list (setItem i (put tree path known[i]?) known)

/-- What stands at a path. -/
def get? : List Step → Tree → Option Tree
  | [], root => some root
  | .name name :: path, root => (Entries.get? name root.entries).bind (get? path)
  | .item index :: path, root =>
    (root.items[position index root.items.length]?).bind (get? path)

/-- The text that stands at a path. -/
def text? (path : List Step) (root : Tree) : Option String :=
  match root.get? path with
  | some (.text content) => some content
  | _ => none

mutual

/-- The tree of a JSON value. -/
def ofJson : Json → Tree
  | .str content => .text content
  | .arr items => .list (itemsOfJson items)
  | .obj members => .table (entriesOfJson members)
  | _ => .other

/-- The trees of the items of an array. -/
def itemsOfJson : List Json → List Tree
  | [] => []
  | item :: items => ofJson item :: itemsOfJson items

/-- The trees of the members of an object. -/
def entriesOfJson : List (String × Json) → List (String × Tree)
  | [] => []
  | (name, value) :: members => (name, ofJson value) :: entriesOfJson members

end

end Tree

/-! ## Paths -/

/-- The characters that a name in a path is made of. -/
def isPathChar (c : Char) : Bool :=
  c.isAlphanum || c = '_' || c = '-' || c = ' '

/-- An index of 64 bits, with or without a minus, between blanks. -/
def index? (inside : List Char) : Option Int :=
  let isBlank (c : Char) : Bool := c = ' ' || c = '\t'
  let core := ((inside.dropWhile isBlank).reverse.dropWhile isBlank).reverse
  let (negative, digits) :=
    match core with
    | '-' :: digits => (true, digits)
    | _ => (false, core)
  let n : Int := Number.digitsValue digits
  let index := if negative then -n else n
  if digits.isEmpty || !digits.all Char.isDigit then none
  else if -(Nat.pow 2 63 : Int) ≤ index ∧ index < (Nat.pow 2 63 : Int) then some index
  else none

theorem length_dropWhile_lt {α : Type} (p : α → Bool) (c : α) (cs : List α) :
    (cs.dropWhile p).length < (c :: cs).length :=
  Nat.lt_succ_of_le (List.dropWhile_sublist p).length_le

/-- The steps that follow the first name of a path. -/
def readSteps : List Char → Option (List Step)
  | [] => some []
  | '.' :: cs =>
    match cs.takeWhile isPathChar with
    | [] => none
    | name => (readSteps (cs.dropWhile isPathChar)).map (.name (String.ofList name) :: ·)
  | '[' :: cs =>
    match index? (cs.takeWhile (· ≠ ']')), readSteps ((cs.dropWhile (· ≠ ']')).drop 1) with
    | some index, some steps => if cs.contains ']' then some (.item index :: steps) else none
    | _, _ => none
  | _ => none
termination_by cs => cs.length
decreasing_by
  · exact length_dropWhile_lt _ _ _
  · simp only [List.length_drop]
    exact Nat.lt_of_le_of_lt (Nat.sub_le _ _) (length_dropWhile_lt _ _ _)

/-- The path that a name denotes, in lower case.  A name of no such form is a path of one step. -/
def pathOf (name : String) : List Step :=
  let cs := (lower name).toList
  match cs.takeWhile isPathChar, readSteps (cs.dropWhile isPathChar) with
  | [], _ => [.name (lower name)]
  | first, some steps => .name (String.ofList first) :: steps
  | _, none => [.name (lower name)]

end TreeStream.Settings
