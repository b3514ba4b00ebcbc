import TreeStream.Text.Quoted

/-!
# Events

A tree is streamed as a sequence of events in document order.  A `close` carries no name: it closes
the element that was opened last.

* `Event` and its kinds.
* `Event.describe` is the form of an event in messages.
-/

namespace TreeStream
set_option autoImplicit false

/-- One step of a walk through a tree. -/
inductive Event where
  | start (name : String)
  | close
  | text (content : String)
  | attr (name value : String)
deriving Repr, DecidableEq, Inhabited

namespace Event

/-- What sort of step an event is. -/
inductive Kind where
  | start
  | close
  | text
  | attr
deriving Repr, DecidableEq, Inhabited

/-- The name of a kind, as it is written in streams. -/
def Kind.name : Kind → String
  | .start => "start"
  | .close => "end"
  | .text => "text"
  | .attr => "attr"

/-- The kind of a given name. -/
def Kind.ofName? (name : String) : Option Kind :=
  [Kind.start, .close, .text, .attr].find? fun kind => kind.name = name

theorem Kind.ofName?_name (kind : Kind) : ofName? kind.name = some kind := by
  cases kind <;> decide

/-- The kind of an event. -/
def kind : Event → Kind
  | .start _ => .start
  | .close => .close
  | .text _ => .text
  | .attr _ _ => .attr

/-- The event opens an element. -/
def isStart : Event → Bool
  | .start _ => true
  | _ => false

/-- The fields that an event carries besides its kind. -/
def fields : Event → List (String × String)
  | .start name => [("name", name)]
  | .close => []
  | .text content => [("text", content)]
  | .attr name value => [("name", name), ("value", value)]

/-- The form of an event in messages: names stand as they are, texts are quoted. -/
def describe : Event → String
  | .start name => "start(" ++ name ++ ")"
  | .close => "end"
  | .text content => "text(" ++ Text.quote content ++ ")"
  | .attr name value => "attr(" ++ name ++ "=" ++ Text.quote value ++ ")"

end Event
end TreeStream
