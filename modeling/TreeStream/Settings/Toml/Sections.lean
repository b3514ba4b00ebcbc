import TreeStream.Settings.Toml.Item

/-!
# Sections of a TOML document

A document defines tables in three ways, and none of them may define a table again: a header names a
table, a header implies the tables around the one that it names, and a key with points defines the
tables that it passes through.  An array of tables grows by one table with every header of it.

* `Section.within` changes the table at a path.
* `Section.openTable` and `Section.openItem` are what the two kinds of headers do, and
  `Section.enter` what a key with its value does.
* `Section.item` is the table that comes of it, in the order in which its entries began.  A header
  moves the table that it names behind all that stands beside it.
-/

namespace TreeStream.Settings.Toml
set_option autoImplicit false

/-- How a table came to be. -/
inductive Origin where
  /-- A header names it. -/
  | named
  /-- A header names a table in it. -/
  | implied
  /-- A key with points passes through it. -/
  | passed
deriving Repr, DecidableEq, Inhabited

/-- What stands under a name. -/
inductive Node where
  | value (item : Item)
  | table (origin : Origin) (entries : List (String × Node))
  /-- An array of tables: the last one, and those before it from the last to the first. -/
  | items (last : List (String × Node)) (before : List (List (String × Node)))
deriving Inhabited

/-- A table that is being defined. -/
structure Section where
  origin : Origin
  entries : List (String × Node)
deriving Inhabited

namespace Section

/-- A table that is named and has no entries yet. -/
def empty : Section :=
  ⟨.named, []⟩

/-- Puts an entry behind all others, among which the name must not be. -/
def add (name : String) (node : Node) (table : Section) : Section :=
  { table with entries := table.entries ++ [(name, node)] }

/-- Removes a name. -/
def remove (name : String) (table : Section) : Section :=
  { table with entries := Entries.erase name table.entries }

/-- Replaces what stands under a name. -/
def replace (name : String) (node : Node) (table : Section) : Section :=
  { table with
    entries := table.entries.map fun entry => if entry.1 = name then (name, node) else entry }

/-- Changes the table at a path.  A table that is missing on the way is made, with the given origin;
keys with points do not pass through tables that a header names. -/
def within (origin : Origin) (change : Section → Option Section) :
    List String → Section → Option Section
  | [], table => change table
  | name :: path, table =>
    match Entries.get? name table.entries with
    | none =>
      (within origin change path ⟨origin, []⟩).map fun below =>
        table.add name (.table below.origin below.entries)
    | some (.table known entries) =>
      if origin = .passed ∧ known = .named then none
      else
        (within origin change path ⟨known, entries⟩).map fun below =>
          table.replace name (.table below.origin below.entries)
    | some (.items last before) =>
      (within origin change path ⟨.named, last⟩).map fun below =>
        table.replace name (.items below.entries before)
    | some (.value _) => none

/-- The last name of a path, and the names before it. -/
def splitLast? (path : List String) : Option (List String × String) :=
  path.getLast?.map fun name => (path.dropLast, name)

/-- A header that names a table. -/
def openTable (path : List String) (root : Section) : Option Section := do
  let (above, name) ← splitLast? path
  within .implied (fun table =>
    match Entries.get? name table.entries with
    | none => some (table.add name (.table .named []))
    | some (.table .implied entries) => some ((table.remove name).add name (.table .named entries))
    | some _ => none) above root

/-- A header that begins another table of an array. -/
def openItem (path : List String) (root : Section) : Option Section := do
  let (above, name) ← splitLast? path
  within .implied (fun table =>
    match Entries.get? name table.entries with
    | none => some (table.add name (.items [] []))
    | some (.items last before) => some (table.replace name (.items [] (last :: before)))
    | some _ => none) above root

/-- A key and its value in a table.  A key with points ends in a table that such keys define. -/
def enter (key : List String) (value : Item) (table : Section) : Option Section := do
  let (above, name) ← splitLast? key
  within .passed (fun below =>
    if (above.isEmpty || below.origin = .passed) ∧ (Entries.get? name below.entries).isNone then
      some (below.add name (.value value))
    else none) above table

/-- A key and its value in the table that a header has named. -/
def enterAt (header key : List String) (value : Item) (root : Section) : Option Section :=
  within .implied (enter key value) header root

end Section

mutual

/-- What stands under a name, as a value. -/
def Node.item : Node → Item
  | .value item => item
  | .table _ entries => .table (itemEntries entries)
  | .items last before => .list (itemTables [.table (itemEntries last)] before)

/-- The entries of a table as values. -/
def itemEntries : List (String × Node) → List (String × Item)
  | [] => []
  | (name, node) :: entries => (name, node.item) :: itemEntries entries

/-- Tables in the order of the document, in front of later ones. -/
def itemTables (later : List Item) : List (List (String × Node)) → List Item
  | [] => later
  | entries :: before => itemTables (.table (itemEntries entries) :: later) before

end

/-- The table of a document or of a line. -/
def Section.item (table : Section) : Item :=
  .table (itemEntries table.entries)

end TreeStream.Settings.Toml
