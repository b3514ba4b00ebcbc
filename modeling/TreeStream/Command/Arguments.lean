import TreeStream.Text.Split

/-!
# Command lines

A command line is a command with options.  Options that concern the settings may stand before the
command or after it, where the later one counts; the others belong to the command `run`.

* `Flag` lists the options, and `Flag.ofWord?` recognises one.
* `readFlags` reads the options in front of some words.
* `parse?` reads a command line.
-/

namespace TreeStream.Command
set_option autoImplicit false

/-- An option. -/
inductive Flag where
  | settings
  | level
  | input
  | output
  | vars
  | lead
deriving Repr, DecidableEq, Inhabited

namespace Flag

/-- The long name of an option. -/
def long : Flag → String
  | settings => "config"
  | level => "log-level"
  | input => "input"
  | output => "output"
  | vars => "vars"
  | lead => "prefix"

/-- The letter of an option. -/
def short? : Flag → Option Char
  | input => some 'i'
  | output => some 'o'
  | _ => none

/-- All options. -/
def all : List Flag :=
  [settings, level, input, output, vars, lead]

/-- The option may stand before the command. -/
def isGlobal : Flag → Bool
  | settings => true
  | level => true
  | _ => false

/-- The value of the option is the name of a file, and is not empty then. -/
def isPath : Flag → Bool
  | level => false
  | lead => false
  | _ => true

/-- The value is one that the option can have. -/
def accepts (flag : Flag) (value : String) : Bool :=
  !flag.isPath || value ≠ ""

end Flag

/-- The word is no value: it begins with a hyphen and has more. -/
def isOption (word : String) : Bool :=
  match word.toList with
  | '-' :: _ :: _ => true
  | _ => false

/-- The option of a word, and the value that the word carries. -/
def Flag.ofWord? (word : String) : Option (Flag × Option String) :=
  match word.toList with
  | '-' :: '-' :: rest =>
    let (name, value) :=
      match Text.splitFirst ['='] rest with
      | some (name, value) => (name, some (String.ofList value))
      | none => (rest, none)
    (Flag.all.find? fun flag => flag.long.toList = name).map fun flag => (flag, value)
  | '-' :: letter :: rest =>
    let value :=
      match rest with
      | [] => none
      | '=' :: value => some (String.ofList value)
      | value => some (String.ofList value)
    (Flag.all.find? fun flag => flag.short? = some letter).map fun flag => (flag, value)
  | _ => none

/-- Options with their values. -/
abbrev Flags := List (Flag × String)

/-- Adds an option in front of others, unless it has a value that it cannot have or is there
already. -/
def Flags.add (flag : Flag) (value : String) (flags : Flags) : Option Flags :=
  if flag.accepts value ∧ flags.all (fun other => other.1 ≠ flag) then some ((flag, value) :: flags)
  else none

/-- The value of an option. -/
def Flags.value? (flags : Flags) (flag : Flag) : Option String :=
  (flags.find? fun entry => entry.1 = flag).map Prod.snd

/-- The options in front of some words, and the words from the first one on that is none. -/
def readFlags (allowed : Flag → Bool) : List String → Option (Flags × List String)
  | [] => some ([], [])
  | word :: words =>
    if !isOption word ∨ word = "--" then some ([], word :: words)
    else
      match Flag.ofWord? word, words with
      | some (flag, some value), words =>
        if allowed flag then
          (readFlags allowed words).bind fun (flags, rest) =>
            (flags.add flag value).map fun flags => (flags, rest)
        else none
      | some (flag, none), value :: words =>
        if allowed flag ∧ !isOption value then
          (readFlags allowed words).bind fun (flags, rest) =>
            (flags.add flag value).map fun flags => (flags, rest)
        else none
      | _, _ => none

/-- What a command line asks for. -/
inductive Action where
  /-- Transform a stream. -/
  | run (input output vars : Option String)
  /-- Show the settings. -/
  | showSettings
deriving Repr, DecidableEq, Inhabited

/-- A command line: what is asked for, and what it says about the settings. -/
structure Arguments where
  action : Action
  file : Option String := none
  level : Option String := none
  lead : Option String := none
deriving Repr, DecidableEq, Inhabited

/-- The options behind a command, which must be all that follows; two hyphens may close them. -/
def readOptions (allowed : Flag → Bool) (words : List String) : Option Flags :=
  match readFlags allowed words with
  | some (flags, []) => some flags
  | some (flags, ["--"]) => some flags
  | _ => none

/-- Reads the words of a command line behind the name of the program. -/
def parse? (words : List String) : Option Arguments :=
  match readFlags Flag.isGlobal words with
  | some (before, command :: words) =>
    let about (flags : Flags) (flag : Flag) : Option String :=
      flags.value? flag <|> before.value? flag
    if command = "run" then
      (readOptions (fun _ => true) words).map fun flags =>
        { action := .run (flags.value? .input) (flags.value? .output) (flags.value? .vars)
          file := about flags .settings
          level := about flags .level
          lead := flags.value? .lead }
    else if command = "config" then
      (readOptions Flag.isGlobal words).map fun flags =>
        { action := .showSettings, file := about flags .settings, level := about flags .level }
    else none
  | _ => none

end TreeStream.Command
