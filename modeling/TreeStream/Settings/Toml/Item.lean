import TreeStream.Settings.Toml.Scalar
import TreeStream.Settings.Tree

/-!
# What a TOML document says

A document gives its values in an order, and a table whose first name is `timeName` is another
spelling of the time that it holds.

* `Item` is a value of a document.
* `Item.tree?` is the value as settings, in which strings, numbers, truth values and times are all
  texts; a table that should be a time but is none has no settings.
-/

namespace TreeStream.Settings.Toml
set_option autoImplicit false

/-- A value of a document; the entries of a table are in the order of the document. -/
inductive Item where
  | string (content : String)
  /-- A number, a truth value or a time. -/
  | word (content : String)
  | list (items : List Item)
  | table (entries : List (String × Item))
deriving Inhabited

/-- The name of the time in a table that stands for a time. -/
def timeName : String := "$__toml_private_datetime"

/-- The table stands for a time; whatever follows the first name does not count. -/
def isTime (entries : List (String × Item)) : Bool :=
  (entries.head?.map Prod.fst) = some timeName

/-- The time that a table stands for. -/
def timeOf? (entries : List (String × Item)) : Option String :=
  match entries with
  | (_, .string content) :: _ => (time? .loose content.toList).map String.ofList
  | _ => none

mutual

/-- A value as settings. -/
def Item.tree? : Item → Option Tree
  | .string content => some (.text content)
  | .word content => some (.text content)
  | .list items => (trees? items).map .list
  | .table entries =>
    if isTime entries then (timeOf? entries).map .text
    else (treeEntries? entries).map fun entries => .table (Entries.putAll entries [])

/-- The items of an array as settings. -/
def trees? : List Item → Option (List Tree)
  | [] => some []
  | item :: items =>
    match item.tree?, trees? items with
    | some tree, some rest => some (tree :: rest)
    | _, _ => none

/-- The entries of a table as settings. -/
def treeEntries? : List (String × Item) → Option (List (String × Tree))
  | [] => some []
  | (name, item) :: entries =>
    match item.tree?, treeEntries? entries with
    | some tree, some rest => some ((name, tree) :: rest)
    | _, _ => none

end

end TreeStream.Settings.Toml
