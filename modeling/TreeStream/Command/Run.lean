import TreeStream.Command.Arguments
import TreeStream.Command.Stream
import TreeStream.Settings.Sources

/-!
# Running a command line

A command line is run in a `Place`: files, variables and a standard input.  The `Outcome` is what
has become of the files, the standard output, what was logged, and perhaps a failure.

* `Failure` is why a run fails; `Failure.context` says what could not be done, and `Failure.message`
  also why.
* `seed` reads the variables that a stream starts with.
* `Input` is where a stream is read from, and `openInput` finds it.
* `runStream` transforms a stream, and `runWith` is the whole command line, given a reader of
  filters; `filterOf` decides what is shown of the log.
-/

namespace TreeStream.Command
set_option autoImplicit false

/-- What is wrong with a file. -/
inductive FileFault where
  | path (fault : PathFault)
  /-- It is not UTF-8. -/
  | undecodable
deriving Repr, DecidableEq, Inhabited

/-- Why a run fails. -/
inductive Failure where
  | settings (fault : Settings.Fault)
  | unread (path : String) (fault : FileFault)
  | malformed (path : String) (fault : Json.Fault)
  | notAnObject (path : String)
  | unopened (path : String) (fault : PathFault)
  | uncreated (path : String) (fault : PathFault)
  /-- The input is a directory. -/
  | inputIsDirectory
  | stream (fault : StreamFault)
deriving Repr, DecidableEq, Inhabited

/-- What could not be done. -/
def Failure.context : Failure → String
  | .settings _ => "Failed to load configuration"
  | .unread path _ => "Failed to read " ++ path
  | .malformed path _ => "Invalid JSON in " ++ path
  | .notAnObject path => path ++ " must contain a JSON object"
  | .unopened path _ => "Failed to open " ++ path
  | .uncreated path _ => "Failed to create " ++ path
  | .inputIsDirectory => "Failed to read input"
  | .stream .undecodable => "Failed to read input"
  | .stream (.line number _) => "Invalid event on line " ++ toString number
  | .stream (.engine number _) => "Processing failed at line " ++ toString number
  | .stream (.ended _) => "Input ended early"

/-- What is wrong with a path, in words. -/
def pathMessage : PathFault → String
  | .missing => "no such file or directory"
  | .throughFile => "not a directory"
  | .directory => "is a directory"

/-- Why it could not be done, where that is not said already. -/
def Failure.cause : Failure → Option String
  | .settings .unreadable => some "failed to load configuration"
  | .settings (.invalid reason) => some ("invalid configuration: " ++ reason.message)
  | .unread _ (.path fault) => some (pathMessage fault)
  | .unread _ .undecodable => some "not valid UTF-8"
  | .malformed _ .malformed => some "malformed JSON"
  | .malformed _ .mismatched => some "unexpected JSON"
  | .notAnObject _ => none
  | .unopened _ fault => some (pathMessage fault)
  | .uncreated _ fault => some (pathMessage fault)
  | .inputIsDirectory => some (pathMessage .directory)
  | .stream .undecodable => some "not valid UTF-8"
  | .stream (.line _ .malformed) => some "malformed JSON"
  | .stream (.line _ .mismatched) => some "unexpected JSON"
  | .stream (.engine _ fault) => some fault.message
  | .stream (.ended fault) => some fault.message

/-- What could not be done, and why. -/
def Failure.message (failure : Failure) : String :=
  failure.context ++ (failure.cause.map (": " ++ ·)).getD ""

/-- Where a command line is run. -/
structure Place where
  files : Files
  env : Settings.Variables
  input : List UInt8
deriving Inhabited

/-- What comes of a command line. -/
structure Outcome where
  files : Files
  output : String := ""
  log : List LogEntry := []
  /-- The entries of the log that are shown. -/
  shown : List LogEntry := []
  failure : Option Failure := none
deriving Inhabited

/-- The outcome of a run that fails before it writes anything. -/
def Outcome.failed (files : Files) (failure : Failure) : Outcome :=
  { files, failure := some failure }

/-- The scope with the members of the JSON object in a file. -/
def seed (files : Files) : Option String → Except Failure Scope
  | none => .ok Scope.empty
  | some path =>
    match files.load path with
    | .error fault => .error (.unread path (.path fault))
    | .ok content =>
      match Text.Lines.decode? content with
      | none => .error (.unread path .undecodable)
      | some text =>
        match Json.parse text with
        | .error fault => .error (.malformed path fault)
        | .ok (.obj members) => .ok (Scope.ofList (Value.entriesOfJson members))
        | .ok _ => .error (.notAnObject path)

/-! ## Input and output -/

/-- Where a stream is read from. -/
inductive Input where
  | standard (content : List UInt8)
  | path (target : Target)
deriving Repr, DecidableEq, Inhabited

/-- Finds the input. -/
def openInput (place : Place) : Option String → Except Failure Input
  | none => .ok (.standard place.input)
  | some path =>
    match place.files.find path with
    | .error fault => .error (.unopened path fault)
    | .ok target => .ok (.path target)

/-- The content of the input, which may have changed since it was opened; a directory has none. -/
def Input.read? (files : Files) : Input → Option (List UInt8)
  | .standard content => some content
  | .path (.file location content) => some ((files.contentAt? location).getD content)
  | .path .directory => none

/-- Creates the output; where it is, and what the files are then. -/
def createOutput (files : Files) : Option String → Except Failure (Option Location × Files)
  | none => .ok (none, files)
  | some path =>
    match files.create path with
    | .error fault => .error (.uncreated path fault)
    | .ok (location, files) => .ok (some location, files)

/-- The outcome with a text in the output. -/
def Outcome.write (outcome : Outcome) (output : Option Location) (text : String) : Outcome :=
  match output with
  | none => { outcome with output := text }
  | some location =>
    { outcome with files := outcome.files.write location (Text.Lines.toBytes text) }

/-- Transforms the input into the output.  The output is emptied before the input is read, even if
both are the same file. -/
def runStream (steps : Nat) (place : Place) (settings : Settings)
    (input output vars : Option String) : Option Outcome :=
  match seed place.files vars with
  | .error failure => some (.failed place.files failure)
  | .ok scope =>
    match openInput place input with
    | .error failure => some (.failed place.files failure)
    | .ok input =>
      match createOutput place.files output with
      | .error failure => some (.failed place.files failure)
      | .ok (output, files) =>
        match input.read? files with
        | none => some (.failed files .inputIsDirectory)
        | some content =>
          let engine : Engine := { options := settings.engine }
          (transform engine steps scope (Text.Lines.ofBytes content)).map fun (result, feed) =>
            let outcome : Outcome :=
              { files
                log := feed.state.log
                failure :=
                  match result with
                  | .ok () => none
                  | .error fault => some (.stream fault) }
            outcome.write output (written feed.written.toList)

/-- What is shown of the log: the variable `RUST_LOG` decides if it is a filter, and the settings
otherwise. -/
def filterOf (reader : FilterReader) (env : Settings.Variables) (settings : Settings) : LogFilter :=
  let chosen := (env.get? "RUST_LOG").bind fun text => (reader text).toOption
  (chosen <|> (reader settings.level).toOption).getD fun _ => false

/-- Runs a command line, with a number of steps for every event. -/
def runWith (reader : FilterReader) (steps : Nat) (place : Place) (arguments : Arguments) :
    Option Outcome :=
  match Settings.resolveWith reader place.files place.env
      ⟨arguments.file, arguments.level, arguments.lead⟩ with
  | .error fault => some (.failed place.files (.settings fault))
  | .ok settings =>
    match arguments.action with
    | .run input output vars =>
      (runStream steps place settings input output vars).map fun outcome =>
        let env := Settings.variablesOf place.files place.env
        { outcome with shown := outcome.log.filter (filterOf reader env settings) }
    | .showSettings => some { files := place.files, output := settings.toText }

/-- Runs a command line with the filters of the program. -/
def run (steps : Nat) (place : Place) (arguments : Arguments) : Option Outcome :=
  runWith LogFilter.read steps place arguments

end TreeStream.Command
