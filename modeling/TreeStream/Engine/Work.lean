import TreeStream.Event
import TreeStream.Scope

/-!
# Suspended work

A directive that waits for more events leaves a description of what it will do then.  There are
five occasions to wait for, and a type of descriptions for each.  While it waits for a part of its
element, a capture takes the events instead of the router.

* `Callback`: the queue has been worked off as far as a mark in it.
* `EndHook`: a level closes.
* `Handler`: an event is selected.
* `TextUse`: the argument at the beginning of an element is complete.
* `BodyUse`: the element is complete.

Each type also has descriptions for a host that uses the same occasions, and that only lets events
be emitted.  `Queued` is an item of the queue.

* `Capture.firstText` gathers the text at the beginning of an element and stops at the first start
  or close.
* `Capture.subLevel` takes what is left of an element and stops at the close of the element itself.
* `Capture.feed` gives one event to a capture.
-/

namespace TreeStream
set_option autoImplicit false

/-- What becomes of the event that closed a level. -/
inductive LevelClose where
  | forward
  | suppress
deriving Repr, DecidableEq, Inhabited

/-- A loop over a list: the names of the item and its position, the body, the position of the next
round and the items that are left for it and later ones. -/
structure Loop where
  item : String
  index : Option String
  body : List Event
  round : Nat
  left : List Value
deriving Inhabited

/-- What to do when the queue has been worked off as far as a mark. -/
inductive Callback where
  /-- A round of a loop is over, and its bindings with it. -/
  | roundDone (overlay : Overlay) (loop : Loop)
  /-- A deferred body is over, and its bindings with it; `selectedStart` tells whether it stood for
  an element. -/
  | bodyDone (overlay : Overlay) (selectedStart : Bool)
  | announce (event : Event)
deriving Inhabited

/-- An item of the queue. -/
inductive Queued where
  | event (event : Event)
  | callback (callback : Callback)
deriving Inhabited

/-- The form of an item in messages. -/
def Queued.describe : Queued → String
  | .event e => e.describe
  | .callback _ => "callback"

/-- What to do when a level closes. -/
inductive EndHook where
  /-- The closing event disappears. -/
  | vanish
  /-- The closing event disappears, and these items come back to the head of the queue. -/
  | resume (stash : List Queued)
  | announce (event : Event) (close : LevelClose)
deriving Inhabited

/-- What to do with a selected event. -/
inductive Handler where
  /-- Run a deferred body in its place, with the event under a name. -/
  | deferred (body : List Event) (binding : Option String)
  | announce (event : Event)
deriving Inhabited

/-- What to do with the argument of an element. -/
inductive TextUse where
  | eval
  /-- The start of the element is needed when the condition fails to evaluate. -/
  | cond (start : Event)
  | each (start : Event)
  | defer
  /-- Put the value under the name of the element. -/
  | substitute (name : String)
  | report (tag : String)
  | reportValue (tag : String)
deriving Inhabited

/-- What to do with the rest of an element. -/
inductive BodyUse where
  | drop
  /-- Repeat it for these items. -/
  | loop (item : String) (index : Option String) (items : List Value)
  /-- Keep it for events that match the selector. -/
  | register (selector : String) (binding : Option String)
  | through
  | report (tag : String)
deriving Inhabited

/-! ## Captures -/

/-- A consumer of events. -/
inductive Capture where
  | firstText (text : String) (use : TextUse)
  /-- `depth` counts the elements that are open inside, and falls below zero at the end. -/
  | subLevel (depth : Int) (discard : Bool) (buffer : List Event) (use : BodyUse)
deriving Inhabited

namespace Capture

/-- How an event changes the number of open elements. -/
def shift : Event → Int
  | .start _ => 1
  | .close => -1
  | _ => 0

/-- Gives an event to a capture.  If the event ends it, the event is given back. -/
def feed (event : Event) : Capture → Capture × Option Event
  | .firstText text use =>
    match event with
    | .text chunk => (.firstText (text ++ chunk) use, none)
    | .attr _ _ => (.firstText text use, none)
    | .start _ => (.firstText text use, some event)
    | .close => (.firstText text use, some event)
  | .subLevel depth discard buffer use =>
    let depth := depth + shift event
    if depth < 0 then (.subLevel depth discard buffer use, some event)
    else (.subLevel depth discard (if discard then buffer else buffer ++ [event]) use, none)

end Capture
end TreeStream
