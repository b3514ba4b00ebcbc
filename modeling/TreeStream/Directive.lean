import TreeStream.Text.Blank
import TreeStream.Text.Split

/-!
# Directives

Elements whose names follow certain patterns are not content but instructions.

* `Directive` lists the instructions and `Tag` the roles that an element can have.
* `Options.classify` gives the role that a name has.
* `EachArgument.parse?` and `Selection.parse` read the arguments of `each` and `on`.
* `Misuse` is a directive that cannot be carried out, and `Misuse.message` says so in words.
-/

namespace TreeStream
set_option autoImplicit false

/-- What an element instructs. -/
inductive Directive where
  /-- Evaluate the argument and show nothing. -/
  | eval
  /-- Keep the children only if the argument is true. -/
  | cond
  /-- Repeat the children for every item of a list. -/
  | each
  /-- Keep the children for later, when an event is selected. -/
  | defer
  /-- Let the selected element through. -/
  | through
  /-- Report the state of affairs. -/
  | debug
deriving Repr, DecidableEq, Inhabited

namespace Directive

/-- The word for a directive. -/
def keyword : Directive → String
  | .eval => "eval"
  | .cond => "if"
  | .each => "each"
  | .defer => "on"
  | .through => "through"
  | .debug => "debug"

/-- The directive of a word. -/
def ofKeyword? (word : String) : Option Directive :=
  [eval, cond, each, defer, through, debug].find? fun directive => directive.keyword = word

theorem ofKeyword?_keyword (directive : Directive) :
    ofKeyword? directive.keyword = some directive := by
  cases directive <;> decide

end Directive

/-- How directives are told from content: their names start with `lead`, and `short` is another
name for `on`. -/
structure Options where
  lead : String := ":"
  short : String := "::"
deriving Repr, DecidableEq, Inhabited

/-- The role of an element. -/
inductive Tag where
  | directive (directive : Directive)
  | unknown
  /-- A name that ends with an equals sign asks for a value. -/
  | affect
  | element
deriving Repr, DecidableEq, Inhabited

/-- The role of an element of a given name. -/
def Options.classify (options : Options) (name : String) : Tag :=
  if name = options.short then .directive .defer
  else
    match Text.dropStart? options.lead name with
    | some word =>
      match Directive.ofKeyword? word with
      | some directive => .directive directive
      | none => .unknown
    | none => if name.toList.getLast? = some '=' then .affect else .element

/-! ## Arguments -/

/-- The argument of `each`: the name of the item, perhaps that of its position, and the text of the
list. -/
structure EachArgument where
  item : String
  index : Option String
  source : String
deriving Repr, DecidableEq, Inhabited

/-- The trimmed characters as a name, if any are left. -/
def nameOf? (cs : List Char) : Option String :=
  let trimmed := Text.trimChars cs
  if trimmed.isEmpty then none else some (String.ofList trimmed)

/-- An argument of the form `item in source` or `item, index in source`; the first ` in ` and the
first comma before it count. -/
def EachArgument.parse? (text : String) : Option EachArgument :=
  match Text.splitFirst [' ', 'i', 'n', ' '] text.toList with
  | none => none
  | some (binding, source) =>
    let (item, index) :=
      match Text.splitFirst [','] binding with
      | some (item, index) => (item, nameOf? index)
      | none => (binding, none)
    (nameOf? item).map fun item => ⟨item, index, String.ofList (Text.trimChars source)⟩

/-- The argument of `on`: what is selected, if anything, and perhaps a name for it. -/
structure Selection where
  binding : Option String
  selector : Option String
deriving Repr, DecidableEq, Inhabited

/-- An argument of the form `selector` or `binding=selector`; the first equals sign counts. -/
def Selection.parse (text : String) : Selection :=
  match Text.splitFirst ['='] text.toList with
  | some (binding, selector) => ⟨nameOf? binding, nameOf? selector⟩
  | none => ⟨none, nameOf? text.toList⟩

/-! ## Misuse -/

/-- A directive that cannot be carried out. -/
inductive Misuse where
  | unknownDirective (name : String)
  | badEach (argument : String)
  | notAList (source found : String)
  | missingSelector (argument : String)
  | throughOutside
  | throughTwice
deriving Repr, DecidableEq, Inhabited

/-- The misuse in words. -/
def Misuse.message : Misuse → String
  | .unknownDirective name => "unknown directive '" ++ name ++ "'"
  | .badEach argument =>
    ":each bad syntax argument: '" ++ argument ++ "' (expected 'name[, index] in expression')"
  | .notAList source found =>
    ":each: expression '" ++ source ++ "' is a " ++ found ++ ", not a list"
  | .missingSelector argument => ":on without a selector: '" ++ argument ++ "'"
  | .throughOutside => ":through called outside of an :on context"
  | .throughTwice => ":through called twice for the same :on context"

end TreeStream
