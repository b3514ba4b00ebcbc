import TreeStream.Event
import TreeStream.Json.Reader
import TreeStream.Json.Writer

/-!
# Events as lines of JSON

An event is written as one JSON object that names its kind under `type` and then carries its fields.
A reader takes the members in any order and ignores the ones that it does not know.  It also takes
an event as an array, of its kind and its fields in their order and of nothing else.

* `Event.toLine` writes an event.
* `Event.ofFields` makes an event of a kind from the members of an object, `Event.ofItems` from the
  other items of an array.
* `Event.ofLine` reads a line.  The first fault in the order of the text is reported: an unknown or
  repeated kind as soon as it is met, other faults of shape once the object is complete.
-/

namespace TreeStream.Event
set_option autoImplicit false
open Json (Reader Fault skipBlanks)

/-- The JSON members of an event in the order of writing. -/
def members (event : Event) : List (String × Json) :=
  ("type", .str event.kind.name) :: event.fields.map fun field => (field.1, .str field.2)

/-- The line of an event. -/
def toLine (event : Event) : String :=
  (Json.obj event.members).compact

/-- The one member of a name, which must be a string. -/
def field (name : String) (members : List (String × Json)) : Except Fault String :=
  match members.filter fun member => member.1 = name with
  | [(_, .str value)] => .ok value
  | _ => .error .mismatched

/-- The event of a kind whose fields stand among the members of an object. -/
def ofFields (kind : Kind) (members : List (String × Json)) : Except Fault Event :=
  match kind with
  | .start => (field "name" members).map .start
  | .close => .ok .close
  | .text => (field "text" members).map .text
  | .attr =>
    match field "name" members, field "value" members with
    | .ok name, .ok value => .ok (.attr name value)
    | _, _ => .error .mismatched

/-- The event of a kind whose fields are the items of an array. -/
def ofItems : Kind → List Json → Except Fault Event
  | .start, [.str name] => .ok (.start name)
  | .close, [] => .ok .close
  | .text, [.str content] => .ok (.text content)
  | .attr, [.str name, .str value] => .ok (.attr name value)
  | _, _ => .error .mismatched

/-- The name of a kind.  What is not a string is not read beyond its beginning. -/
def readKind : Reader Kind := fun cs =>
  match skipBlanks cs with
  | '[' :: _ => .error .mismatched
  | '\x7b' :: _ => .error .mismatched
  | cs =>
    match Json.readScalar cs with
    | .error fault => .error fault
    | .ok (.str name, rest) =>
      match Kind.ofName? name with
      | some kind => .ok (kind, rest)
      | none => .error .mismatched
    | .ok _ => .error .mismatched

/-- A field of an event may hold any value as long as nobody asks for it. -/
def readField (count : Nat) : Reader Json :=
  Json.readValue count (Json.maxDepth - 1)

/-- The members of an object from the name of the first one on, with the kind apart; at most `count`
of them. -/
def readMembers (field : Reader Json) :
    Nat → Option Kind → Reader (Option Kind × List (String × Json))
  | 0, _, _ => .error .malformed
  | count + 1, known, cs => do
    let (name, rest) ← Json.readName cs
    if name = "type" then
      match known with
      | some _ => .error .mismatched
      | none =>
        let rest ← Json.expectColon rest
        let (kind, rest) ← readKind rest
        match skipBlanks rest with
        | ',' :: rest => readMembers field count (some kind) rest
        | '\x7d' :: rest => .ok ((some kind, []), rest)
        | _ => .error .malformed
    else
      let rest ← Json.expectColon rest
      let (value, rest) ← field rest
      match skipBlanks rest with
      | ',' :: rest => do
        let ((kind, members), rest) ← readMembers field count known rest
        .ok ((kind, (name, value) :: members), rest)
      | '\x7d' :: rest => .ok ((known, [(name, value)]), rest)
      | _ => .error .malformed

/-- An event from the front of a text with at most `count` parts.  The first item of an array must
name a kind; the others are read to their end before they are looked at. -/
def read (count : Nat) : Reader Event := fun cs =>
  match skipBlanks cs with
  | '\x7b' :: rest =>
    match skipBlanks rest with
    | '\x7d' :: _ => .error .mismatched
    | rest => do
      let ((kind, members), rest) ← readMembers (readField count) count none rest
      match kind with
      | none => .error .mismatched
      | some kind => do
        let event ← ofFields kind members
        .ok (event, rest)
  | '[' :: rest =>
    match skipBlanks rest with
    | ']' :: _ => .error .mismatched
    | rest => do
      let (kind, rest) ← readKind rest
      match skipBlanks rest with
      | ',' :: rest => do
        let (items, rest) ← Json.readItems (readField count) count rest
        let event ← ofItems kind items
        .ok (event, rest)
      | ']' :: rest => do
        let event ← ofItems kind []
        .ok (event, rest)
      | _ => .error .malformed
  | rest => do
    let _ ← Json.readScalar rest
    .error .mismatched

/-- Reads a line that is exactly one event. -/
def ofLine (line : String) : Except Fault Event :=
  Json.whole read line.toList

end TreeStream.Event
