import TreeStream.Settings.Filter
import TreeStream.Settings.Toml.Quoted
import TreeStream.Settings.Tree

/-!
# Settings

What a user can choose: how directives are told from content, and what is logged.

* `Settings` and their defaults; `Settings.toText` is their form as a TOML document.
* `Settings.validateWith` says what is wrong with settings, given a reader of filters, and
  `Invalid.message` says it in words.
* `Settings.ofTree?` takes them from a tree of settings, defaults included.
-/

namespace TreeStream
set_option autoImplicit false

/-- The choices of a user; `level` filters what is logged. -/
structure Settings where
  engine : Options := {}
  level : String := "info"
deriving Repr, DecidableEq, Inhabited

namespace Settings

/-! ## Validation -/

/-- What is wrong with settings. -/
inductive Invalid where
  | emptyLead
  | unrelatedShort (short lead : String)
  /-- The level is no filter, and why that is so. -/
  | badFilter (level report : String)
deriving Repr, DecidableEq, Inhabited

/-- The fault in words. -/
def Invalid.message : Invalid → String
  | .emptyLead => "engine.directive_prefix must not be empty"
  | .unrelatedShort short lead =>
    "engine.deferred_alias '" ++ short ++ "' must extend the directive prefix '" ++ lead ++ "'"
  | .badFilter level report => "logging.level '" ++ level ++ "': " ++ report

/-- The beginning of directives is not empty, the short name has it and more, and the level is a
filter for the reader. -/
def validateWith (reader : FilterReader) (settings : Settings) : Except Invalid Unit :=
  let lead := settings.engine.lead
  let short := settings.engine.short
  if lead = "" then .error .emptyLead
  else if !lead.toList.isPrefixOf short.toList || short = lead then
    .error (.unrelatedShort short lead)
  else
    match reader settings.level with
    | .error report => .error (.badFilter settings.level report)
    | .ok _ => .ok ()

/-- The settings are valid for the program. -/
def validate (settings : Settings) : Except Invalid Unit :=
  settings.validateWith LogFilter.read

/-! ## Settings as a document -/

/-- A line that gives a text. -/
def textLine (name content : String) : String :=
  name ++ " = " ++ String.ofList (Toml.write content.toList) ++ "\n"

/-- The settings as a TOML document. -/
def toText (settings : Settings) : String :=
  "[engine]\n" ++ textLine "directive_prefix" settings.engine.lead ++
    textLine "deferred_alias" settings.engine.short ++ "\n[logging]\n" ++
    textLine "level" settings.level

/-! ## Settings from a tree -/

/-- The parts of a group: those under the given names, or the first items of a list in this order.
Where lists are exact, they must not be longer. -/
def parts? (exact : Bool) (names : List String) : Tree → Option (List (Option Tree))
  | .table entries => some (names.map fun name => Entries.get? name entries)
  | .list items =>
    if exact ∧ names.length < items.length then none
    else some ((List.range names.length).map fun i => items[i]?)
  | _ => none

/-- A text, or its default when it is missing. -/
def textOr (default : String) : Option Tree → Option String
  | none => some default
  | some (.text content) => some content
  | some _ => none

/-- The settings of the engine, or the defaults when they are missing. -/
def engineOf? (exact : Bool) : Option Tree → Option Options
  | none => some {}
  | some tree =>
    match parts? exact ["directive_prefix", "deferred_alias"] tree with
    | some [lead, short] => do
      let lead ← textOr (Options.lead {}) lead
      let short ← textOr (Options.short {}) short
      pure { lead, short }
    | _ => none

/-- The level of logging, or the default when it is missing. -/
def levelOf? (exact : Bool) : Option Tree → Option String
  | none => some (Settings.level {})
  | some tree =>
    match parts? exact ["level"] tree with
    | some [level] => textOr (Settings.level {}) level
    | _ => none

/-- The settings of a tree; what is missing has its default. -/
def ofTree? (exact : Bool) (tree : Tree) : Option Settings :=
  match parts? exact ["engine", "logging"] tree with
  | some [engine, logging] => do
    let engine ← engineOf? exact engine
    let level ← levelOf? exact logging
    pure { engine, level }
  | _ => none

end Settings
end TreeStream
