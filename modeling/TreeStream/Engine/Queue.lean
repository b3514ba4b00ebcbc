import TreeStream.Directive
import TreeStream.Engine.Work

/-!
# The queue, and the markers of deferred bodies

Work that is still to be done, in order.  Events arrive at the tail; what has to run next is put at
the head.

Every deferred body that runs has a marker.  An open marker records how long the queue was before
the body came to its head, so that the items in front of that many are what is left of the body.
Letting the selected element through claims the innermost marker; it can be claimed once.

* `Queue.pushBack`, `pushFront`, `replay` and `prepend` add to the queue, and `takeFront` cuts items
  off its head.
* `Markers.claim` gives the recorded length, or says why there is none to claim.
-/

namespace TreeStream
set_option autoImplicit false

/-- The items that are still to be worked on, next one first. -/
abbrev Queue := List Queued

namespace Queue

/-- An event arrives. -/
def pushBack (queue : Queue) (event : Event) : Queue :=
  queue ++ [.event event]

/-- An event is looked at again before anything else. -/
def pushFront (queue : Queue) (event : Event) : Queue :=
  .event event :: queue

/-- Events come before anything else, and a callback after them. -/
def replay (queue : Queue) (events : List Event) (callback : Callback) : Queue :=
  events.map .event ++ .callback callback :: queue

/-- Items come before anything else. -/
def prepend (queue : Queue) (items : List Queued) : Queue :=
  items ++ queue

/-- The first `count` items, or all if there are fewer, and the others. -/
def takeFront (queue : Queue) (count : Nat) : List Queued × Queue :=
  (queue.take count, queue.drop count)

/-- The form of some items in messages. -/
def describe (items : List Queued) : String :=
  "[" ++ String.intercalate ", " (items.map Queued.describe) ++ "]"

end Queue

/-! ## Markers -/

/-- The marker of a deferred body. -/
inductive Marker where
  | opened (queueLength : Nat)
  | claimed
deriving Repr, DecidableEq, Inhabited

/-- The markers of the bodies that run, innermost first. -/
abbrev Markers := List Marker

namespace Markers

/-- A body begins to run. -/
def push (markers : Markers) (queueLength : Nat) : Markers :=
  .opened queueLength :: markers

/-- Takes the innermost marker away. -/
def close (markers : Markers) : Option Marker × Markers :=
  (markers.head?, markers.tail)

/-- Claims the innermost marker.  Markers further out are out of reach even when it has been claimed
before. -/
def claim : Markers → Except Misuse (Nat × Markers)
  | [] => .error .throughOutside
  | .claimed :: _ => .error .throughTwice
  | .opened queueLength :: outer => .ok (queueLength, .claimed :: outer)

end Markers
end TreeStream
