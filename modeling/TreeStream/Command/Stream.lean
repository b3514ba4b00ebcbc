import TreeStream.Engine.Stream
import TreeStream.Event.Wire
import TreeStream.Text.Lines

/-!
# Streams of lines

A stream is a file with an event on every line that is not blank.  Each line is worked on as soon as
it is read, and what it puts out is written before the next one is looked at; a line that fails
writes nothing.

* `Feed.line` works on one line and `Feed.lines` on all of them.
* `Feed.finish` ends the stream.
* `transform` does both, and `written` is the file of some events.
-/

namespace TreeStream.Command
set_option autoImplicit false

/-- Why a stream was given up; lines are counted from one. -/
inductive StreamFault where
  /-- A line is not UTF-8. -/
  | undecodable
  /-- A line is no event. -/
  | line (number : Nat) (fault : Json.Fault)
  /-- The engine stopped at a line. -/
  | engine (number : Nat) (fault : Fault)
  /-- The stream is not complete. -/
  | ended (fault : Fault)
deriving Repr, DecidableEq, Inhabited

/-- An engine at work on a stream, and the events that it has written. -/
structure Feed where
  state : State
  written : Array Event := #[]
deriving Inhabited

namespace Feed

/-- Writes what the engine has put out. -/
def collect (feed : Feed) (state : State) : Feed :=
  let (output, state) := state.takeOutput
  ⟨state, feed.written ++ output⟩

/-- Works on the line of a number. -/
def line (engine : Engine) (steps number : Nat) (line : Option String) (feed : Feed) :
    Option (Except StreamFault Unit × Feed) :=
  match line with
  | none => some (.error .undecodable, feed)
  | some text =>
    if Text.isBlankLine text then some (.ok (), feed)
    else
      match Event.ofLine text with
      | .error fault => some (.error (.line number fault), feed)
      | .ok event =>
        match engine.submit steps event feed.state with
        | none => none
        | some (.error fault, state) => some (.error (.engine number fault), { feed with state })
        | some (.ok (), state) => some (.ok (), feed.collect state)

/-- Works on lines up to the first fault; the first of them has a number. -/
def lines (engine : Engine) (steps number : Nat) :
    List (Option String) → Feed → Option (Except StreamFault Unit × Feed)
  | [], feed => some (.ok (), feed)
  | first :: rest, feed =>
    match feed.line engine steps number first with
    | none => none
    | some (.error fault, feed) => some (.error fault, feed)
    | some (.ok (), feed) => lines engine steps (number + 1) rest feed

/-- Ends the stream, and tells how many events were written. -/
def finish (feed : Feed) : Except StreamFault Unit × Feed :=
  match feed.state.finish with
  | (.error fault, state) => (.error (.ended fault), { feed with state })
  | (.ok (), state) =>
    let feed := feed.collect state
    (.ok (), { feed with state := feed.state.tell (.processed feed.written.size) })

end Feed

/-- Takes a whole stream in a scope. -/
def transform (engine : Engine) (steps : Nat) (scope : Scope) (lines : List (Option String)) :
    Option (Except StreamFault Unit × Feed) :=
  match Feed.lines engine steps 1 lines ⟨{ scope }, #[]⟩ with
  | none => none
  | some (.error fault, feed) => some (.error fault, feed)
  | some (.ok (), feed) => some feed.finish

/-- The text of some events, one on a line. -/
def written (events : List Event) : String :=
  String.join (events.map fun event => event.toLine ++ "\n")

end TreeStream.Command
