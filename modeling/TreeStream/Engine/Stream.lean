import TreeStream.Engine.Dispatch

/-!
# Streams

A stream is submitted event by event and then finished.  The first fault halts the engine: it keeps
what it has put out, and takes nothing more.

* `Engine.submit`, `Engine.submitAll` and `Engine.run` take a number of steps for every event, as
  `Engine.drain` does.
* `State.finish` says whether the stream was complete.
-/

namespace TreeStream
set_option autoImplicit false

/-- The stream is over.  It was complete if nothing is open and nobody waits. -/
def State.finish (s : State) : Except Fault Unit × State :=
  if s.halted then (.error .halted, s)
  else
    let levels := s.levels.depth - 1
    let captures := s.captures.length
    let markers := s.markers.length
    if levels = 0 ∧ captures = 0 ∧ markers = 0 then (.ok (), s)
    else (.error (.truncated levels captures markers), { s with halted := true })

namespace Engine

/-- Takes an event and does everything that it makes possible. -/
def submit (engine : Engine) (steps : Nat) (event : Event) (s : State) :
    Option (Except Fault Unit × State) :=
  if s.halted then some (.error .halted, s)
  else
    match engine.drain steps { s with queue := s.queue.pushBack event } with
    | none => none
    | some (.ok (), s) => some (.ok (), s)
    | some (.error fault, s) => some (.error fault, { s with halted := true })

/-- Takes events up to the first fault. -/
def submitAll (engine : Engine) (steps : Nat) :
    List Event → State → Option (Except Fault Unit × State)
  | [], s => some (.ok (), s)
  | event :: events, s =>
    match engine.submit steps event s with
    | none => none
    | some (.error fault, s) => some (.error fault, s)
    | some (.ok (), s) => submitAll engine steps events s

/-- Takes a whole stream and gives its output. -/
def run (engine : Engine) (steps : Nat) (events : List Event) (s : State) :
    Option (Except Fault (List Event) × State) :=
  match engine.submitAll steps events s with
  | none => none
  | some (.error fault, s) => some (.error fault, s)
  | some (.ok (), s) =>
    match s.finish with
    | (.error fault, s) => some (.error fault, s)
    | (.ok (), s) =>
      let (output, s) := s.takeOutput
      some (.ok output, s)

end Engine
end TreeStream
