import TreeStream.Command.Run

/-!
# The program

Reads the files that a command line is about, runs it, and writes what it gives.
-/

namespace TreeStream.Program
set_option autoImplicit false

/-- How many steps an event may take. -/
def steps : Nat := Nat.pow 2 62

/-- What is said about a command line that cannot be read. -/
def usage : String :=
  "Usage: textree [--config <PATH>] [--log-level <LEVEL>] <COMMAND>\n\n" ++
    "Commands:\n" ++
    "  run [-i <PATH>] [-o <PATH>] [--vars <PATH>] [--prefix <PREFIX>]\n" ++
    "  config"

/-- The file of a path, if it can be read. -/
def readFile (path : String) : IO (List (String × List UInt8)) := do
  try
    let content ← IO.FS.readBinFile path
    pure [(path, content.data.toList)]
  catch _ => pure []

/-- The directories that are there on the way of a path. -/
def findDirectories (path : String) : IO (List Location) := do
  let names := path.splitOn "/"
  let mut found := []
  for count in List.range names.length do
    let way := "/".intercalate (names.take (count + 1))
    try
      let _ ← IO.FS.realPath (way ++ "/.")
      found := Location.ofPath way :: found
    catch _ => pure ()
  pure found

/-- The files of some paths, and the directories on the way. -/
def gather (paths : List String) : IO Files := do
  let files ← paths.mapM readFile
  let directories ← paths.mapM findDirectories
  pure { Files.ofList files.flatten with directories := directories.flatten }

/-- How many directories lie above the working directory. -/
def findHeight : IO Nat := do
  let path ← IO.FS.realPath "."
  pure ((path.toString.splitOn "/").length - 1)

/-- The variables of the process. -/
def processVariables : IO Settings.Variables := do
  let block ← readFile "/proc/self/environ"
  pure (Settings.Variables.ofBlock (block.flatMap Prod.snd))

/-- Runs a command line; the result is the exit code. -/
def perform (arguments : Command.Arguments) : IO UInt32 := do
  let (input, output, vars) :=
    match arguments.action with
    | .run input output vars => (input, output, vars)
    | .showSettings => (some "", none, none)
  let process ← processVariables
  let height ← findHeight
  let above := (List.range (height + 1)).map (Files.above ".env")
  let known := { ← gather above with height }
  let file := (arguments.file <|>
    (Settings.variablesOf known process).get? "TEXTREE_CONFIG_PATH").getD "textree.toml"
  let files := { ← gather (above ++ [file] ++ (Settings.withEnding? file).toList ++ input.toList ++
    output.toList ++ vars.toList) with height }
  let standard ← if input.isNone then (← IO.getStdin).readBinToEnd else pure ByteArray.empty
  match Command.run steps ⟨files, process, standard.data.toList⟩ arguments with
  | none =>
    IO.eprintln "Error: the stream does not come to an end"
    pure 1
  | some outcome =>
    for path in output do
      match outcome.files.read? path with
      | some content =>
        if outcome.files.read? path ≠ files.read? path then
          IO.FS.writeBinFile path ⟨content.toArray⟩
      | none => pure ()
    IO.print outcome.output
    for entry in outcome.shown do
      IO.eprintln entry.line
    match outcome.failure with
    | none => pure 0
    | some failure =>
      IO.eprintln ("Error: " ++ failure.message)
      pure 1

end TreeStream.Program

/-- Runs the command line of the process. -/
def main (words : List String) : IO UInt32 := do
  match TreeStream.Command.parse? words with
  | some arguments => TreeStream.Program.perform arguments
  | none =>
    IO.eprintln TreeStream.Program.usage
    pure 2
