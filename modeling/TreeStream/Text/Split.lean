/-!
# Cutting a text at a separator

* `splitFirst sep cs` is the part before the first `sep` and the part after it.
* `splitAll mark cs` is the list of the parts between all occurrences of a character.
* `dropStart?` and `dropEnd?` remove a given beginning or ending; `dropStart?_append` says that
  what was put behind a beginning is got back.
-/

namespace TreeStream.Text
set_option autoImplicit false

/-- The parts before and after the first occurrence of `sep`. -/
def splitFirst (sep : List Char) : List Char → Option (List Char × List Char)
  | [] => (sep.isPrefixOf? []).map fun rest => ([], rest)
  | c :: cs =>
    match sep.isPrefixOf? (c :: cs) with
    | some rest => some ([], rest)
    | none => (splitFirst sep cs).map fun parts => (c :: parts.1, parts.2)

/-- The parts between the occurrences of a character. -/
def splitAll (mark : Char) : List Char → List (List Char)
  | [] => [[]]
  | c :: cs =>
    if c = mark then [] :: splitAll mark cs
    else
      match splitAll mark cs with
      | [] => [[c]]
      | part :: parts => (c :: part) :: parts

/-- What follows `start`, when the text begins with it. -/
def dropStart? (start text : String) : Option String :=
  (start.toList.isPrefixOf? text.toList).map String.ofList

theorem isPrefixOf?_append (start rest : List Char) :
    start.isPrefixOf? (start ++ rest) = some rest := by
  induction start with
  | nil => rfl
  | cons c cs ih => exact (if_pos (beq_self_eq_true c)).trans ih

theorem dropStart?_append (start rest : String) :
    dropStart? start (start ++ rest) = some rest := by
  simp [dropStart?, isPrefixOf?_append]

/-- What precedes `ending`, when the text ends with it. -/
def dropEnd? (ending text : String) : Option String :=
  (ending.toList.reverse.isPrefixOf? text.toList.reverse).map fun cs => String.ofList cs.reverse

end TreeStream.Text
