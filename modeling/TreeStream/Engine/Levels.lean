import TreeStream.Engine.Work

/-!
# Levels

One level for every element that is open, and one for the root.  A level holds the handlers that
were registered while it was the innermost one, and what to do when it closes.

* `Levels` is never empty: it has an innermost level, and levels around it.
* `push` and `pop?` open and close levels; the root cannot be closed.
* `register` and `setOnEnd` change the innermost level only.
* `lookup` tries keys in turn, and for each key the levels from the innermost outward.
-/

namespace TreeStream
set_option autoImplicit false

/-- An open element, or the root, which has no tag. -/
structure Level where
  tag : Option String
  handlers : Table Handler := {}
  onEnd : Option EndHook := none
deriving Inhabited

/-- The hook of a level, and the level without it. -/
def Level.takeOnEnd (level : Level) : Option EndHook × Level :=
  (level.onEnd, { level with onEnd := none })

@[simp] theorem Level.takeOnEnd_fst (level : Level) : level.takeOnEnd.1 = level.onEnd := rfl

/-- The open levels: the innermost one, and those around it from the inside out. -/
structure Levels where
  current : Level
  around : List Level
deriving Inhabited

namespace Levels

/-- Nothing is open but the root. -/
def root : Levels :=
  ⟨⟨none, {}, none⟩, []⟩

/-- All levels from the inside out. -/
def toList (levels : Levels) : List Level :=
  levels.current :: levels.around

/-- How many levels there are, with the root. -/
def depth (levels : Levels) : Nat :=
  levels.around.length + 1

/-- Opens a level. -/
def push (levels : Levels) (tag : String) : Levels :=
  ⟨⟨some tag, {}, none⟩, levels.toList⟩

/-- Closes the innermost level, unless it is the root. -/
def pop? (levels : Levels) : Option (Level × Levels) :=
  match levels.around with
  | [] => none
  | outer :: around => some (levels.current, ⟨outer, around⟩)

/-- Replaces what to do when the innermost level closes. -/
def setOnEnd (levels : Levels) (hook : EndHook) : Levels :=
  { levels with current := { levels.current with onEnd := some hook } }

/-- Registers a handler for a key on the innermost level. -/
def register (levels : Levels) (key : String) (handler : Handler) : Levels :=
  { levels with
    current := { levels.current with handlers := levels.current.handlers.put key handler } }

/-- The handler of the first key that has one; the innermost level that knows the key decides. -/
def lookup (levels : Levels) (keys : List String) : Option Handler :=
  keys.findSome? fun key => levels.toList.findSome? fun level => level.handlers.get? key

/-- The tags from the root inward. -/
def tags (levels : Levels) : List String :=
  levels.toList.reverse.map fun level => level.tag.getD "(root)"

theorem pop?_push (levels : Levels) (tag : String) :
    (levels.push tag).pop? = some (⟨some tag, {}, none⟩, levels) := rfl

end Levels
end TreeStream
