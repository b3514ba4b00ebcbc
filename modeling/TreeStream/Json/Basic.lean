import TreeStream.Table

/-!
# JSON values

* `Json` is a JSON value.  Integers are kept apart from other numbers, because they are written
  without a fraction.
* `Json.Fault` says why a text is not the value that was asked for.
* `Json.ofMembers` is the object of a list of members, in which the last of several members of one
  name counts, and `Json.member?` looks a member up.
-/

namespace TreeStream
set_option autoImplicit false

/-- A JSON value; the members of an object are in increasing order of their names. -/
inductive Json where
  | null
  | bool (b : Bool)
  | int (i : Int)
  | real (x : Float)
  | str (s : String)
  | arr (items : List Json)
  | obj (members : List (String × Json))
deriving Inhabited

namespace Json

/-- Why a text does not give the value that was asked for. -/
inductive Fault where
  /-- The text is not exactly one JSON value. -/
  | malformed
  /-- It is a JSON value of another shape. -/
  | mismatched
deriving Repr, DecidableEq, Inhabited

/-- The object of a list of members; the last member of a name counts. -/
def ofMembers (members : List (String × Json)) : Json :=
  .obj (Entries.putAll members [])

/-- The member of an object under a name. -/
def member? (name : String) : Json → Option Json
  | .obj members => Entries.get? name members
  | _ => none

end Json
end TreeStream
