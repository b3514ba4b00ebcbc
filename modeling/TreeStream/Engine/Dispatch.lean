import TreeStream.Engine.State

/-!
# Dispatching events

One queue holds all work.  An event goes to the innermost capture, or to the router when there is
none; a callback runs.  Whatever that puts at the head of the queue comes next.

* `Handler.run`, `Callback.run`, `BodyUse.run` and `Engine.useText` do what was suspended.
* `Directive.enter` begins a directive, and `Engine.route` is the router.
* `Engine.deliver` gives an event to whoever is to have it, and `Engine.step` works on one item.
* `Engine.drain` works until the queue is empty.  Bodies that select themselves never come to an
  end, so it takes a number of steps, and gives nothing when they do not suffice.
-/

namespace TreeStream
set_option autoImplicit false

/-- The fixed parts of an engine. -/
structure Engine where
  options : Options := {}
  evaluator : Evaluator := builtin

/-! ## What was suspended -/

/-- The next round of a loop: binds the item and its position, and replays the body. -/
def Loop.play (loop : Loop) (s : State) : State :=
  match loop.left with
  | [] => s
  | item :: left =>
    let position := loop.index.toList.map fun name => (name, Value.num (Float.ofNat loop.round))
    let (overlay, s) := s.install ((loop.item, item) :: position)
    s.playBuffer loop.body (.roundDone overlay { loop with round := loop.round + 1, left := left })

/-- What a deferred body sees of the event that it stands for: the text itself, or the event as an
object. -/
def Event.selected : Event → Value
  | .text content => .str content
  | event => .ofEvent event

/-- Runs a handler on the event that was selected.  A deferred body sees it under `_` and perhaps
under a name of its own. -/
def Handler.run (handler : Handler) (event : Event) (s : State) : State :=
  match handler with
  | .deferred body binding =>
    let s := { s with markers := s.markers.push s.queue.length }
    let value := event.selected
    let (overlay, s) := s.install (("_", value) :: binding.toList.map fun name => (name, value))
    s.playBuffer body (.bodyDone overlay event.isStart)
  | .announce first => (s.emit first).emit event

/-- Runs a callback.  When a deferred body was not asked to let its element through, the element is
dropped. -/
def Callback.run (callback : Callback) (s : State) : State :=
  match callback with
  | .roundDone overlay loop => loop.play (s.release overlay)
  | .bodyDone overlay selectedStart =>
    let s := s.release overlay
    let (marker, markers) := s.markers.close
    let s := { s with markers }
    match marker, selectedStart with
    | some (.opened _), true => s.discardBody
    | _, _ => s
  | .announce event => s.emit event

/-- Claims the innermost marker: what is left of its body is taken out of the queue, and comes back
when the current level closes. -/
def State.letThrough (s : State) : State :=
  match s.markers.claim with
  | .error misuse => s.tell (.misuse misuse)
  | .ok (queueLength, markers) =>
    let (stash, queue) := s.queue.takeFront (s.queue.length - queueLength)
    { s with queue, markers }.setOnEnd (.resume stash)

/-- Does something with the rest of an element. -/
def BodyUse.run (use : BodyUse) (body : List Event) (s : State) : State :=
  match use with
  | .drop => s
  | .loop item index items => Loop.play ⟨item, index, body, 0, items⟩ s
  | .register selector binding =>
    { s with levels := s.levels.register selector (.deferred body binding) }
  | .through => s.letThrough
  | .report tag =>
    { s with output := s.output ++ .attr tag (toString body.length) :: body }

/-- The text that stands for the outcome of an evaluation. -/
def outcomeText : Except EvalError Value → String
  | .ok value => value.toText
  | .error error => error.inline

/-- What a host is told of the outcome of an evaluation: the type and the text of a value. -/
def outcomeReport : Except EvalError Value → String
  | .ok value => value.typeName ++ ":" ++ value.toText
  | .error error => error.inline

namespace Engine

/-- Does something with the argument of an element. -/
def useText (engine : Engine) (use : TextUse) (text : String) (s : State) : State :=
  match use with
  | .eval =>
    let (_, s) := s.evaluate engine.evaluator text
    s.discardBody
  | .cond start =>
    match s.evaluate engine.evaluator text with
    | (.error error, s) => (s.emit start).emit (.text error.inline)
    | (.ok value, s) => if value.isTruthy then s.setOnEnd .vanish else s.discardBody
  | .each start =>
    match EachArgument.parse? text with
    | none => ((s.tell (.misuse (.badEach text))).emit start).emit (.text text)
    | some argument =>
      match s.evaluate engine.evaluator argument.source with
      | (.error error, s) => (s.emit (.text error.inline)).discardBody
      | (.ok (.list items), s) => s.captureBody false (.loop argument.item argument.index items)
      | (.ok value, s) =>
        (s.tell (.misuse (.notAList argument.source value.typeName))).discardBody
  | .defer =>
    let selection := Selection.parse text
    match selection.selector with
    | none => (s.tell (.misuse (.missingSelector text))).discardBody
    | some selector => s.captureBody false (.register selector selection.binding)
  | .substitute name =>
    let (outcome, s) := s.evaluate engine.evaluator text
    let element := (Text.dropEnd? "=" name).getD name
    if element = "" then (s.emit (.text (outcomeText outcome))).discardBody
    else (s.emit (.start element)).emit (.text (outcomeText outcome))
  | .report tag => s.emit (.attr tag text)
  | .reportValue tag =>
    let (outcome, s) := s.evaluate engine.evaluator text
    s.emit (.attr tag (outcomeReport outcome))

end Engine

/-! ## The router -/

/-- Begins a directive at its start event. -/
def Directive.enter (directive : Directive) (start : Event) (s : State) : State :=
  match directive with
  | .eval => s.captureText .eval
  | .cond => s.captureText (.cond start)
  | .each => s.captureText (.each start)
  | .defer => s.captureText .defer
  | .through => s.captureBody true .through
  | .debug => (s.tell (.snapshot s.snapshot)).discardBody

/-- Gives an event to the handler of the first key that has one, or to the output. -/
def State.forward (s : State) (keys : List String) (event : Event) : State :=
  match s.levels.lookup keys with
  | some handler => handler.run event s
  | none => s.emit event

namespace Engine

/-- Where an event goes when nobody waits for it. -/
def route (engine : Engine) (event : Event) (s : State) : Except Fault Unit × State :=
  match event with
  | .start name =>
    let s := { s with levels := s.levels.push name }
    match engine.options.classify name with
    | .directive directive => (.ok (), directive.enter event s)
    | .affect => (.ok (), s.captureText (.substitute name))
    | .unknown => (.ok (), (s.tell (.misuse (.unknownDirective name))).forward [name, "*"] event)
    | .element => (.ok (), s.forward [name, "*"] event)
  | .close =>
    match s.shiftLevel with
    | .error fault => (.error fault, s)
    | .ok (.suppress, s) => (.ok (), s)
    | .ok (.forward, s) => (.ok (), s.forward ["END"] event)
  | .text _ => (.ok (), s.forward ["TEXT"] event)
  | .attr _ _ => (.ok (), s.forward ["ATTR"] event)

/-- Ends a capture, which is no longer among those of the state.  The event that ended an argument
is looked at again; the one that ended an element closes its level. -/
def complete (engine : Engine) (capture : Capture) (boundary : Event) (s : State) :
    Except Fault Unit × State :=
  match capture with
  | .firstText text use =>
    (.ok (), engine.useText use text { s with queue := s.queue.pushFront boundary })
  | .subLevel _ _ buffer use =>
    match s.shiftLevel with
    | .error fault => (.error fault, s)
    | .ok (_, s) => (.ok (), use.run buffer s)

/-- Gives an event to the innermost capture, or to the router. -/
def deliver (engine : Engine) (event : Event) (s : State) : Except Fault Unit × State :=
  match s.captures with
  | [] => engine.route event s
  | capture :: captures =>
    match capture.feed event with
    | (capture, none) => (.ok (), { s with captures := capture :: captures })
    | (capture, some boundary) => engine.complete capture boundary { s with captures }

/-- Works on one item. -/
def step (engine : Engine) (item : Queued) (s : State) : Except Fault Unit × State :=
  match item with
  | .event event => engine.deliver event s
  | .callback callback => (.ok (), callback.run s)

/-- Works until the queue is empty or a fault ends the work, for at most so many steps. -/
def drain (engine : Engine) : Nat → State → Option (Except Fault Unit × State)
  | steps, s =>
    match s.queue with
    | [] => some (.ok (), s)
    | item :: queue =>
      match steps with
      | 0 => none
      | steps + 1 =>
        match engine.step item { s with queue } with
        | (.error fault, s) => some (.error fault, s)
        | (.ok (), s) => drain engine steps s

end Engine
end TreeStream
