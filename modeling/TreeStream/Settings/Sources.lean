import TreeStream.Files
import TreeStream.Settings.Basic
import TreeStream.Settings.Toml.Reader
import TreeStream.Settings.Variables

/-!
# Where settings come from

Four layers give settings, each for itself: defaults, a file, environment variables, and the choices
of a single run.  A higher layer wins setting by setting.  The short name of `on` follows the
beginning of directives unless some layer gives it.

* `find?` finds the file, and `fileLayer?` reads it.
* `layers` puts the layers over each other.
* `resolveWith` gives the settings of a run, given a reader of filters.
-/

namespace TreeStream.Settings
set_option autoImplicit false

/-- What a single run chooses: a file of settings, and settings themselves. -/
structure Choices where
  file : Option String := none
  level : Option String := none
  lead : Option String := none
deriving Repr, DecidableEq, Inhabited

/-- Why there are no settings. -/
inductive Fault where
  /-- A layer cannot be read, or gives something of the wrong shape. -/
  | unreadable
  | invalid (reason : Invalid)
deriving Repr, DecidableEq, Inhabited

/-- The variables of a run: those of the process, and those of the nearest file `.env`, which may
lie above the working directory. -/
def variablesOf (files : Files) (process : Variables) : Variables :=
  match files.nearest? ".env" with
  | some content => process.load content
  | none => process

/-- A path with the ending of files of settings added to its last name, if it has one. -/
def withEnding? (path : String) : Option String :=
  let names := (Text.splitAll '/' path.toList).reverse
  match names.dropWhile fun name => name = [] || name = ['.'] with
  | [] => none
  | name :: above =>
    if name = ['.', '.'] then none
    else
      let name := name ++ ".toml".toList
      some (String.ofList (List.intercalate ['/'] (name :: above).reverse))

/-- The text of a file of settings; the ending of its name may be left out.  A file that is not
UTF-8 has none. -/
def find? (files : Files) (path : String) : Option String :=
  (files.read? path <|> (withEnding? path).bind files.read?).bind Text.Lines.decode?

/-- Puts the settings of a document, whose outermost names are paths, over a tree. -/
def fileLayer? (document : String) (root : Tree) : Option Tree :=
  (Toml.parse? document.toList).map fun entries =>
    entries.foldl (fun root (name, tree) => tree.put (pathOf name) (some root)) root

/-- Puts a text at a path, if there is one. -/
def choose (path : List Step) (content : Option String) (root : Tree) : Tree :=
  match content with
  | some content => (Tree.text content).put path (some root)
  | none => root

/-- Where the beginning of directives stands. -/
def leadPath : List Step := [.name "engine", .name "directive_prefix"]

/-- Where the short name of `on` stands. -/
def shortPath : List Step := [.name "engine", .name "deferred_alias"]

/-- Where the level of logging stands. -/
def levelPath : List Step := [.name "logging", .name "level"]

/-- The lowest layer.  It does not give the short name of `on`. -/
def defaults : Tree :=
  choose levelPath (some (Settings.level {})) (choose leadPath (some (Options.lead {})) Tree.empty)

/-- The file of settings over a tree.  A file that is asked for must be there. -/
def withFile (files : Files) (path : Option String) (root : Tree) : Option Tree :=
  match path with
  | some path => (find? files path).bind fun document => fileLayer? document root
  | none =>
    match find? files "textree.toml" with
    | some document => fileLayer? document root
    | none => some root

/-- All layers over each other. -/
def layers (files : Files) (env : Variables) (choices : Choices) : Option Tree :=
  (withFile files (choices.file <|> env.get? "TEXTREE_CONFIG_PATH") defaults).map fun root =>
    choose leadPath choices.lead (choose levelPath choices.level (env.layer root))

/-- The settings of a tree, in which the short name of `on` may be left to the beginning of
directives. -/
def ofLayers? (root : Tree) : Option Settings :=
  (ofTree? false root).map fun settings =>
    match root.text? shortPath with
    | some _ => settings
    | none =>
      let lead := settings.engine.lead
      { settings with engine := { lead, short := lead ++ lead } }

/-- The settings of a run, whose level must be a filter for the reader. -/
def resolveWith (reader : FilterReader) (files : Files) (process : Variables) (choices : Choices) :
    Except Fault Settings :=
  match (layers files (variablesOf files process) choices).bind ofLayers? with
  | none => .error .unreadable
  | some settings =>
    match settings.validateWith reader with
    | .error reason => .error (.invalid reason)
    | .ok () => .ok settings

/-- The settings of a run of the program. -/
def resolve (files : Files) (process : Variables) (choices : Choices) : Except Fault Settings :=
  resolveWith LogFilter.read files process choices

end TreeStream.Settings
