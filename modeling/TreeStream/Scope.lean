import TreeStream.Table
import TreeStream.Value

/-!
# Scopes

The variables that expressions see, and temporary bindings over them.  Installing bindings gives an
overlay, which remembers what the names stood for before; releasing the overlay puts that back,
absence included.

* `Scope.install` and `Scope.release` are the two operations on overlays.
* `Scope.set`, `Scope.setAll` and `Scope.get?` are those on variables.
-/

namespace TreeStream
set_option autoImplicit false

/-- Variables and their values. -/
abbrev Vars := Table Value

/-- What the names of some bindings stood for before they were installed. -/
structure Overlay where
  saved : List (String × Option Value)
deriving Inhabited

/-- Variables, and the number of overlays that have been installed over them and not released. -/
structure Scope where
  vars : Vars
  overlays : Nat
deriving Inhabited

namespace Scope

/-- The scope without variables. -/
def empty : Scope :=
  ⟨Table.empty, 0⟩

/-- The scope of a list of variables, in which later ones win. -/
def ofList (pairs : List (String × Value)) : Scope :=
  ⟨Table.ofList pairs, 0⟩

/-- The value of a variable. -/
def get? (scope : Scope) (name : String) : Option Value :=
  scope.vars.get? name

/-- Sets a variable. -/
def set (scope : Scope) (name : String) (value : Value) : Scope :=
  { scope with vars := scope.vars.put name value }

/-- Sets variables in turn. -/
def setAll (scope : Scope) (pairs : List (String × Value)) : Scope :=
  { scope with vars := scope.vars.putAll pairs }

/-- Binds names over the variables.  A name that is bound twice keeps its last value; it is
remembered once, as it was before. -/
def install (scope : Scope) (bindings : List (String × Value)) : Overlay × Scope :=
  let names := (bindings.map Prod.fst).eraseDups
  (⟨names.map fun name => (name, scope.get? name)⟩,
    ⟨scope.vars.putAll bindings, scope.overlays + 1⟩)

/-- Makes a name stand for what it stood for before. -/
def restore (vars : Vars) (saved : String × Option Value) : Vars :=
  match saved.2 with
  | some value => vars.put saved.1 value
  | none => vars.erase saved.1

/-- Puts back what an overlay remembers. -/
def release (scope : Scope) (overlay : Overlay) : Scope :=
  ⟨overlay.saved.reverse.foldl restore scope.vars, scope.overlays - 1⟩

end Scope
end TreeStream
