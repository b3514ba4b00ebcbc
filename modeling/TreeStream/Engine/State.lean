import TreeStream.Engine.Levels
import TreeStream.Engine.Queue
import TreeStream.Expr.Eval

/-!
# The state of the engine

* `State` is everything that an engine remembers between events.
* `LogEntry` is something it tells besides its output, and `Fault` is the end of its work.
* `Snapshot` is the part of the state that is reported on request.
* The functions on `State` are the primitives that directives are made of: emitting and evaluating,
  closing a level, capturing and replaying.
-/

namespace TreeStream
set_option autoImplicit false

/-- Sizes of the parts of a state, and the tags of its levels from the root inward. -/
structure Snapshot where
  queueLength : Nat
  tags : List String
  contexts : Nat
  markers : Nat
  overlays : Nat
deriving Repr, DecidableEq, Inhabited

/-- Something that is told besides the output. -/
inductive LogEntry where
  | evaluationFailed (source : String) (error : EvalError)
  | misuse (what : Misuse)
  | snapshot (sizes : Snapshot)
  | processed (events : Nat)
deriving Repr, DecidableEq, Inhabited

/-- How grave an entry is. -/
inductive Severity where
  | info
  | warn
  | error
deriving Repr, DecidableEq, Inhabited

/-- The word for a gravity. -/
def Severity.name : Severity → String
  | .info => "INFO"
  | .warn => "WARN"
  | .error => "ERROR"

namespace LogEntry

/-- How grave an entry is. -/
def severity : LogEntry → Severity
  | .evaluationFailed _ _ => .error
  | .misuse _ => .warn
  | .snapshot _ => .info
  | .processed _ => .info

/-- What an entry says. -/
def message : LogEntry → String
  | .evaluationFailed _ _ => "expression evaluation failed"
  | .misuse m => m.message
  | .snapshot _ => ":debug"
  | .processed _ => "stream processed"

/-- The details of an entry. -/
def fields : LogEntry → List (String × Json)
  | .evaluationFailed source error => [("expr", .str source), ("err", .str error.message)]
  | .misuse _ => []
  | .snapshot s =>
    [("queue", .int s.queueLength), ("levels", .str (String.intercalate " < " s.tags)),
      ("contexts", .int s.contexts), ("continuations", .int s.markers),
      ("overlays", .int s.overlays)]
  | .processed events => [("events", .int events)]

/-- A detail in the form `name=value`. -/
def fieldText (field : String × Json) : String :=
  field.1 ++ "=" ++
    match field.2 with
    | .str text => text
    | json => json.compact

/-- An entry on a line. -/
def line (entry : LogEntry) : String :=
  " ".intercalate (entry.severity.name :: entry.message :: entry.fields.map fieldText)

end LogEntry

/-- Why an engine stopped for good. -/
inductive Fault where
  | unmatchedEnd
  | truncated (levels captures markers : Nat)
  | halted
deriving Repr, DecidableEq, Inhabited

/-- The fault in words. -/
def Fault.message : Fault → String
  | .unmatchedEnd => "unmatched END event: no open level to close"
  | .truncated levels captures markers =>
    "event stream ended early: " ++ toString levels ++ " open level(s), " ++ toString captures ++
      " pending capture(s), " ++ toString markers ++ " open continuation(s)"
  | .halted => "engine halted by an earlier fatal error"

/-- What stands in the output for an expression that has no value. -/
def EvalError.inline (error : EvalError) : String :=
  "[expression error: " ++ error.message ++ "]"

/-- Everything that an engine remembers. -/
structure State where
  scope : Scope := Scope.empty
  queue : Queue := []
  levels : Levels := Levels.root
  /-- Innermost first. -/
  captures : List Capture := []
  /-- Innermost first. -/
  markers : Markers := []
  output : List Event := []
  log : List LogEntry := []
  halted : Bool := false
deriving Inhabited

/-- What to do when a level closes: what becomes of the closing event, and the state then. -/
def EndHook.run (hook : EndHook) (s : State) : LevelClose × State :=
  match hook with
  | .vanish => (.suppress, s)
  | .resume stash => (.suppress, { s with queue := s.queue.prepend stash })
  | .announce event close => (close, { s with output := s.output ++ [event] })

namespace State

/-- Sizes and tags for a report; the router counts as a context. -/
def snapshot (s : State) : Snapshot where
  queueLength := s.queue.length
  tags := s.levels.tags
  contexts := s.captures.length + 1
  markers := s.markers.length
  overlays := s.scope.overlays

/-- Tells something. -/
def tell (s : State) (entry : LogEntry) : State :=
  { s with log := s.log ++ [entry] }

/-- Adds an event to the output. -/
def emit (s : State) (event : Event) : State :=
  { s with output := s.output ++ [event] }

/-- The output so far, which is then forgotten. -/
def takeOutput (s : State) : List Event × State :=
  (s.output, { s with output := [] })

/-- Evaluates a text in the scope, and tells when that fails. -/
def evaluate (s : State) (evaluator : Evaluator) (source : String) :
    Except EvalError Value × State :=
  let (result, scope) := s.scope.evaluate evaluator source
  let s := { s with scope }
  match result with
  | .ok value => (.ok value, s)
  | .error error => (.error error, s.tell (.evaluationFailed source error))

/-- Closes the innermost level and does what is to be done then. -/
def shiftLevel (s : State) : Except Fault (LevelClose × State) :=
  match s.levels.pop? with
  | none => .error .unmatchedEnd
  | some (level, levels) =>
    let s := { s with levels }
    match level.takeOnEnd.1 with
    | none => .ok (.forward, s)
    | some hook => .ok (hook.run s)

/-- Waits for the argument of the current element. -/
def captureText (s : State) (use : TextUse) : State :=
  { s with captures := .firstText "" use :: s.captures }

/-- Waits for the rest of the current element. -/
def captureBody (s : State) (discard : Bool) (use : BodyUse) : State :=
  { s with captures := .subLevel 0 discard [] use :: s.captures }

/-- Drops the rest of the current element. -/
def discardBody (s : State) : State :=
  s.captureBody true .drop

/-- Puts events at the head of the queue, with a callback after them. -/
def playBuffer (s : State) (events : List Event) (callback : Callback) : State :=
  { s with queue := s.queue.replay events callback }

/-- Replaces what to do when the innermost level closes. -/
def setOnEnd (s : State) (hook : EndHook) : State :=
  { s with levels := s.levels.setOnEnd hook }

/-- Installs bindings. -/
def install (s : State) (bindings : List (String × Value)) : Overlay × State :=
  let (overlay, scope) := s.scope.install bindings
  (overlay, { s with scope })

/-- Releases bindings. -/
def release (s : State) (overlay : Overlay) : State :=
  { s with scope := s.scope.release overlay }

end State
end TreeStream
