import TreeStream.Settings.Toml.Quoted
import TreeStream.Settings.Toml.Scalar
import TreeStream.Settings.Toml.Sections

/-!
# Reading TOML

A document is a sequence of headers and of keys with values, one on a line.

* `readKey` reads a key, whose parts stand between points.
* `readValue depth` reads a value whose arrays and tables are nested at most `depth` deep.
* `parse?` reads a document.
-/

namespace TreeStream.Settings.Toml
set_option autoImplicit false

/-- The text without the blanks that begin it. -/
def skipBlanks (cs : List Char) : List Char :=
  cs.dropWhile isBlank

/-- The text without the blank lines and comments that begin it; the flag says that it begins inside
a comment. -/
def skipLines : Bool → List Char → Option (List Char)
  | _, [] => some []
  | _, '\n' :: rest => skipLines false rest
  | _, '\r' :: '\n' :: rest => skipLines false rest
  | true, c :: rest => if isControl c then none else skipLines true rest
  | false, '#' :: rest => skipLines true rest
  | false, c :: rest => if isBlank c then skipLines false rest else some (c :: rest)

/-- What follows a statement, which has a line of its own. -/
def endLine (cs : List Char) : Option (List Char) :=
  match skipBlanks cs with
  | [] => some []
  | '#' :: rest => skipLines true rest
  | '\n' :: rest => skipLines false rest
  | '\r' :: '\n' :: rest => skipLines false rest
  | _ => none

/-- The characters of a part of a key that is not quoted. -/
def isKeyChar (c : Char) : Bool :=
  c.isAlphanum || c = '_' || c = '-'

/-- One part of a key. -/
def readPart : Reader String := fun cs =>
  match cs.takeWhile isKeyChar with
  | [] => (readWithinLine cs).map fun part => (String.ofList part.1, part.2)
  | part => some (String.ofList part, cs.dropWhile isKeyChar)

/-- A key of at most `count` parts, and what follows it and its blanks. -/
def readParts : Nat → Reader (List String)
  | 0, _ => none
  | count + 1, cs => do
    let (part, rest) ← readPart (skipBlanks cs)
    match skipBlanks rest with
    | '.' :: rest => do
      let (parts, rest) ← readParts count rest
      pure (part :: parts, rest)
    | rest => pure ([part], rest)

/-- How many parts a key may have. -/
def maxParts : Nat := 79

/-- A key, and what follows it and its blanks. -/
def readKey : Reader (List String) :=
  readParts maxParts

/-- A value that is one word.  A date may be followed by a time of day after one blank. -/
def readWord : Reader Item := fun cs =>
  let word := cs.takeWhile isWordChar
  let rest := cs.dropWhile isWordChar
  let single := (scalar? word).map fun text => (.word (String.ofList text), rest)
  match takeDate word, rest with
  | some (_, []), ' ' :: more =>
    match time? {} (word ++ ' ' :: more.takeWhile isWordChar) with
    | some time => some (.word (String.ofList time), more.dropWhile isWordChar)
    | none => single
  | _, _ => single

/-- The items of an array after its bracket, up to and with the closing one; at most `count` of
them. Line ends and comments may stand anywhere between. -/
def readItems (value : Reader Item) : Nat → Reader (List Item)
  | 0, _ => none
  | count + 1, cs => do
    match ← skipLines false cs with
    | ']' :: rest => pure ([], rest)
    | rest => do
      let (item, rest) ← value rest
      match ← skipLines false rest with
      | ',' :: rest => do
        let (items, rest) ← readItems value count rest
        pure (item :: items, rest)
      | ']' :: rest => pure ([item], rest)
      | _ => none

/-- A key, an equals sign and a value. -/
def readEntry (value : Reader Item) : Reader (List String × Item) := fun cs => do
  match ← readKey cs with
  | (key, '=' :: rest) => do
    let (item, rest) ← value (skipBlanks rest)
    pure ((key, item), rest)
  | _ => none

/-- The entries of a table within a line, from the first one up to and with the closing brace; at
most `count` of them. -/
def readEntries (value : Reader Item) : Nat → Section → Reader Section
  | 0, _, _ => none
  | count + 1, table, cs => do
    let ((key, item), rest) ← readEntry value cs
    let table ← table.enter key item
    match skipBlanks rest with
    | ',' :: rest => readEntries value count table rest
    | '\x7d' :: rest => pure (table, rest)
    | _ => none

/-- A value whose arrays and tables are nested at most `depth` deep. -/
def readValue : Nat → Reader Item
  | _, '"' :: rest =>
    (readQuoted ('"' :: rest)).map fun text => (.string (String.ofList text.1), text.2)
  | _, '\'' :: rest =>
    (readQuoted ('\'' :: rest)).map fun text => (.string (String.ofList text.1), text.2)
  | depth + 1, '[' :: rest =>
    (readItems (readValue depth) (rest.length + 1) rest).map fun items => (.list items.1, items.2)
  | depth + 1, '\x7b' :: rest =>
    match skipBlanks rest with
    | '\x7d' :: rest => some (.table [], rest)
    | rest =>
      (readEntries (readValue depth) rest.length Section.empty rest).map fun table =>
        (table.1.item, table.2)
  | _, cs => readWord cs

/-- How deep arrays and tables may be nested. -/
def maxDepth : Nat := 79

/-- The statements of a document, at most `count` of them, under a header. -/
def readDocument : Nat → List String → Section → List Char → Option Section
  | 0, _, _, _ => none
  | _, _, root, [] => some root
  | count + 1, _, root, '[' :: '[' :: rest => do
    match ← readKey rest with
    | (header, ']' :: ']' :: rest) => do
      let root ← root.openItem header
      readDocument count header root (← endLine rest)
    | _ => none
  | count + 1, _, root, '[' :: rest => do
    match ← readKey rest with
    | (header, ']' :: rest) => do
      let root ← root.openTable header
      readDocument count header root (← endLine rest)
    | _ => none
  | count + 1, header, root, cs => do
    let ((key, item), rest) ← readEntry (readValue maxDepth) cs
    let root ← root.enterAt header key item
    readDocument count header root (← endLine rest)

/-- The settings of a document.  A byte order mark may come before it. -/
def parse? (cs : List Char) : Option (List (String × Tree)) := do
  let cs :=
    match cs with
    | '\ufeff' :: rest => rest
    | _ => cs
  let rest ← skipLines false cs
  let root ← readDocument (rest.length + 1) [] Section.empty rest
  match ← root.item.tree? with
  | .table entries => pure entries
  | _ => none

end TreeStream.Settings.Toml
