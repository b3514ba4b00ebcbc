/-!
# Lines

A text is a sequence of lines.  Each line ends with a line feed, only the last one need not.

* `cutAfter` cuts a sequence behind every end mark; `cutAfter_append` gives the first piece.
* `dropEnd` removes the end mark of a line, with a carriage return before it.
* `ofBytes` decodes the lines of a file; a line that is not UTF-8 has no text.
* `dropMark` removes a byte order mark, which may come before the first line.
* `toBytes` is a text as a file.
-/

namespace TreeStream.Text.Lines
set_option autoImplicit false

universe u
variable {α : Type u}

/-- The pieces of a sequence, each up to and with the first end mark.  The items of the first piece
that have been seen already are given from the last to the first. -/
def cutFrom (isEnd : α → Bool) (seen : List α) : List α → List (List α)
  | [] => if seen.isEmpty then [] else [seen.reverse]
  | x :: xs =>
    if isEnd x then (x :: seen).reverse :: cutFrom isEnd [] xs
    else cutFrom isEnd (x :: seen) xs

/-- The pieces of a sequence, each up to and with the first end mark. -/
def cutAfter (isEnd : α → Bool) (xs : List α) : List (List α) :=
  cutFrom isEnd [] xs

theorem cutFrom_append (isEnd : α → Bool) (seen xs : List α) (mark : α) (rest : List α)
    (hxs : ∀ x ∈ xs, isEnd x = false) (hmark : isEnd mark = true) :
    cutFrom isEnd seen (xs ++ mark :: rest) =
      (seen.reverse ++ xs ++ [mark]) :: cutAfter isEnd rest := by
  induction xs generalizing seen with
  | nil => simp [cutFrom, hmark, cutAfter]
  | cons x xs ih =>
    have hx : isEnd x = false := hxs x List.mem_cons_self
    have hrest := ih (x :: seen) fun y hy => hxs y (List.mem_cons_of_mem _ hy)
    simpa [cutFrom, hx] using hrest

theorem cutAfter_append (isEnd : α → Bool) (xs : List α) (mark : α) (rest : List α)
    (hxs : ∀ x ∈ xs, isEnd x = false) (hmark : isEnd mark = true) :
    cutAfter isEnd (xs ++ mark :: rest) = (xs ++ [mark]) :: cutAfter isEnd rest :=
  cutFrom_append isEnd [] xs mark rest hxs hmark

/-- The line without its end mark, and without a carriage return before that. -/
def dropEnd [DecidableEq α] (feed carriage : α) (line : List α) : List α :=
  if line.getLast? = some feed then
    let line := line.dropLast
    if line.getLast? = some carriage then line.dropLast else line
  else line

/-- The text of some bytes, when they are UTF-8. -/
def decode? (bytes : List UInt8) : Option String :=
  String.fromUTF8? ⟨bytes.toArray⟩

/-- The bytes behind a byte order mark, if they begin with one. -/
def dropMark : List UInt8 → List UInt8
  | 0xef :: 0xbb :: 0xbf :: bytes => bytes
  | bytes => bytes

/-- The lines of a file. -/
def ofBytes (bytes : List UInt8) : List (Option String) :=
  (cutAfter (· == 10) bytes).map fun line => decode? (dropEnd 10 13 line)

/-- A text as a file. -/
def toBytes (text : String) : List UInt8 :=
  text.toUTF8.data.toList

end TreeStream.Text.Lines
