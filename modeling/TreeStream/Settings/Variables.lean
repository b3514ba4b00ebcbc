import TreeStream.Settings.Tree
import TreeStream.Text.Alphanumeric
import TreeStream.Text.Blank
import TreeStream.Text.Lines
import TreeStream.Text.Split

/-!
# Environment variables

Variables come from the process, and from a file of lines `NAME=value`.  The process wins over the
file, and an earlier line over a later one.

* `Variables.get?` is the value of a variable, and `Variables.define` defines one that has no value
  yet.
* `Quoting.scan` follows the quotes of a line, so that `statements` can join the lines of a value
  that goes on behind a line end.
* `readStatement` reads one assignment, with quotes, escapes and the values of other variables in
  it.
* `load` adds the variables of a file.  The first malformed line ends the file.
* `ofBlock` are the variables in the form in which a process has them.
* `layer` puts the settings that variables give over a tree.
-/

namespace TreeStream.Settings
set_option autoImplicit false

/-- Environment variables: definitions `NAME=value`, in the order in which they were made. -/
structure Variables where
  definitions : List String := []
deriving Repr, DecidableEq, Inhabited

namespace Variables

/-- The definition of a variable. -/
def definition (name value : String) : String :=
  name ++ "=" ++ value

/-- The value of a variable: what follows its name and an equals sign in the first definition that
begins with them.  The empty name is that of no variable. -/
def get? (env : Variables) (name : String) : Option String :=
  if name = "" then none
  else env.definitions.findSome? (Text.dropStart? (definition name ""))

/-- Defines a variable, unless it has a value. -/
def define (name value : String) (env : Variables) : Variables :=
  if (env.get? name).isSome then env
  else ⟨env.definitions ++ [definition name value]⟩

/-- The variables of a list of names and values. -/
def ofList (pairs : List (String × String)) : Variables :=
  ⟨pairs.map fun pair => definition pair.1 pair.2⟩

/-- The names and values of all definitions. -/
def pairs (env : Variables) : List (String × String) :=
  env.definitions.filterMap fun text =>
    (Text.splitFirst ['='] text.toList).map fun (name, value) =>
      (String.ofList name, String.ofList value)

/-! ## Lines that belong together -/

/-- How far a line has been followed. -/
inductive Quoting where
  | plain
  /-- A blank comes before. -/
  | blank
  | escape
  | double
  | doubleEscape
  | single
  | singleEscape
deriving Repr, DecidableEq, Inhabited

/-- What opens at a character outside of quotes. -/
def Quoting.opened (c : Char) : Quoting :=
  if c = '\\' then .escape
  else if c = '"' then .double
  else if c = '\'' then .single
  else .plain

/-- One more character; nothing when a comment begins with it, which takes a single blank before. -/
def Quoting.next : Quoting → Char → Option Quoting
  | .blank, c => if c = '#' then none else some (opened c)
  | .plain, c =>
    some (if Text.isBlank c ∧ c ≠ '\n' ∧ c ≠ '\r' then .blank else opened c)
  | .escape, _ => some .plain
  | .double, c => some (if c = '\\' then .doubleEscape else if c = '"' then .plain else .double)
  | .doubleEscape, _ => some .double
  | .single, c => some (if c = '\\' then .singleEscape else if c = '\'' then .plain else .single)
  | .singleEscape, _ => some .single

/-- The characters of a line before a comment, and how far it has been followed without one. -/
def Quoting.scan : Quoting → List Char → List Char × Option Quoting
  | state, [] => ([], some state)
  | state, c :: cs =>
    match state.next c with
    | none => ([], none)
    | some state =>
      let (kept, last) := scan state cs
      (c :: kept, last)

/-- The line is nothing but a comment. -/
def isComment (line : List Char) : Bool :=
  (line.dropWhile Text.isBlank).head? = some '#'

/-- The statements of some lines, given what has been read of the first one.  A line is followed by
the next one until its quotes are closed; nothing stands for the end of a file in the midst of a
statement. -/
def statements (before : List Char) (state : Quoting) : List (List Char) → List (Option (List Char))
  | [] => if state = .plain then [] else [none]
  | line :: lines =>
    let whole := before ++ line
    if isComment whole then some [] :: statements [] .plain lines
    else
      match state.scan line with
      | (kept, none) => some (before ++ kept) :: statements [] .plain lines
      | (_, some .plain) => some (Text.Lines.dropEnd '\n' '\r' whole) :: statements [] .plain lines
      | (_, some state) => statements whole state lines

/-! ## Statements -/

/-- Where in a value a character stands. -/
inductive Place where
  | bare
  | double
  | single
  /-- After a backslash; the flag tells whether between double quotes. -/
  | escaped (quoted : Bool)
  /-- In the name of a variable after `$`. -/
  | variable (name : List Char) (quoted : Bool)
  /-- In the name of a variable between braces. -/
  | braced (name : List Char) (quoted : Bool)
  /-- After the value. -/
  | after
deriving Repr, DecidableEq

/-- Outside of names and escapes. -/
def Place.ofQuoted (quoted : Bool) : Place :=
  if quoted then .double else .bare

/-- The characters that a backslash may stand before. -/
def escape? : Char → Option Char
  | 'n' => some '\n'
  | '\\' => some '\\'
  | '\'' => some '\''
  | '"' => some '"'
  | '$' => some '$'
  | ' ' => some ' '
  | _ => none

/-- The value of a variable, which is empty when there is none. -/
def value (env : Variables) (name : List Char) : List Char :=
  ((env.get? (String.ofList name.reverse)).getD "").toList

/-- What a character adds to a value, and where the next one stands.  The character after the name
of a variable stands for itself. -/
def Place.next (env : Variables) : Place → Char → Option (List Char × Place)
  | .after, c => if c = ' ' ∨ c = '\t' then some ([], .after) else none
  | .escaped quoted, c => (escape? c).map fun meant => ([meant], .ofQuoted quoted)
  | .single, c => some (if c = '\'' then ([], .bare) else ([c], .single))
  | .variable name quoted, c =>
    if Text.isAlphanumeric c then some ([], .variable (c :: name) quoted)
    else if c = '\x7b' ∧ name = [] then some ([], .braced [] quoted)
    else if c = '$' then some (value env name, .variable [] quoted)
    else some (value env name ++ [c], .ofQuoted quoted)
  | .braced name quoted, c =>
    some (if c = '\x7d' then (value env name, .ofQuoted quoted)
      else ([], .braced (c :: name) quoted))
  | .double, c =>
    some (if c = '$' then ([], .variable [] true)
      else if c = '"' then ([], .bare)
      else if c = '\\' then ([], .escaped true)
      else ([c], .double))
  | .bare, c =>
    some (if c = '$' then ([], .variable [] false)
      else if c = '\'' then ([], .single)
      else if c = '"' then ([], .double)
      else if c = '\\' then ([], .escaped false)
      else if c = ' ' ∨ c = '\t' then ([], .after)
      else ([c], .bare))

/-- The rest of a value.  After the value there may be a comment. -/
def readValue (env : Variables) : Place → List Char → Option (List Char)
  | .variable name false, [] => some (value env name)
  | .bare, [] => some []
  | .after, [] => some []
  | .escaped false, [] => some []
  | _, [] => none
  | .after, '#' :: _ => some []
  | place, c :: cs =>
    match place.next env c with
    | none => none
    | some (added, place) => (readValue env place cs).map (added ++ ·)

/-- The name of a variable, and what follows it and its blanks. -/
def readName (cs : List Char) : Option (List Char × List Char) :=
  let isNameChar (c : Char) : Bool := c.isAlphanum || c = '_' || c = '.'
  match cs with
  | [] => none
  | c :: _ =>
    if c.isAlpha ∨ c = '_' then
      some (cs.takeWhile isNameChar, (cs.dropWhile isNameChar).dropWhile Text.isBlank)
    else none

/-- The name of an assignment, and what follows the equals sign.  The word `export` may come
before. -/
def readTarget (cs : List Char) : Option (List Char × List Char) :=
  match readName cs with
  | none => none
  | some (name, '=' :: rest) => some (name, rest)
  | some (word, rest) =>
    if word = "export".toList then
      match readName rest with
      | some (name, '=' :: rest) => some (name, rest)
      | _ => none
    else none

/-- What a statement assigns, if it does. -/
inductive Statement where
  | blank
  | assign (name value : String)
deriving Repr, DecidableEq, Inhabited

/-- Reads a statement; nothing when it is malformed. -/
def readStatement (env : Variables) (statement : List Char) : Option Statement :=
  match Text.trimChars statement with
  | [] => some .blank
  | '#' :: _ => some .blank
  | cs =>
    match readTarget cs with
    | none => none
    | some (name, rest) =>
      let content :=
        match rest.dropWhile Text.isBlank with
        | '#' :: _ => some []
        | value => readValue env .bare value
      content.map fun content => .assign (String.ofList name) (String.ofList content)

/-- Carries out statements up to the first malformed one.  What has a value keeps it. -/
def assignAll (env : Variables) : List (Option (List Char)) → Variables
  | [] => env
  | none :: _ => env
  | some statement :: rest =>
    match readStatement env statement with
    | none => env
    | some .blank => assignAll env rest
    | some (.assign name value) => assignAll (env.define name value) rest

/-- Adds the variables of a file, as far as it is UTF-8. -/
def load (env : Variables) (file : List UInt8) : Variables :=
  let lines := (Text.Lines.cutAfter (· == 10) (Text.Lines.dropMark file)).map Text.Lines.decode?
  let decoded := (lines.takeWhile Option.isSome).filterMap (·.map String.toList)
  assignAll env (statements [] .plain decoded)

/-- The variables of a block of `NAME=value` strings, each closed by a zero byte. -/
def ofBlock (block : List UInt8) : Variables :=
  ⟨(Text.Lines.cutAfter (· == 0) block).filterMap fun bytes =>
    Text.Lines.decode? (bytes.filter (· ≠ 0))⟩

/-! ## Settings -/

/-- Every two underscores become a point. -/
def pointed : List Char → List Char
  | '_' :: '_' :: cs => '.' :: pointed cs
  | c :: cs => c :: pointed cs
  | [] => []

/-- The path of the setting that a variable gives, if it gives one.  Letter case does not count. -/
def pathOf? (name : String) : Option (List Step) :=
  (Text.dropStart? "textree_" (lower name)).map fun rest =>
    pathOf (String.ofList (pointed rest.toList))

/-- Puts the settings that variables give over a tree; later definitions win. -/
def layer (env : Variables) (root : Tree) : Tree :=
  env.pairs.foldl
    (fun root (name, value) =>
      match pathOf? name with
      | some path => (Tree.text value).put path (some root)
      | none => root)
    root

end Variables
end TreeStream.Settings
