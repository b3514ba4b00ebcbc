import TreeStream.Json.Reader
import TreeStream.Text.Quoted

/-!
# Strings in TOML

A string stands between double quotes, where backslashes escape, or between single quotes, where
nothing does.  Three quotes let it run over several lines.

* `readBasic`, `readBasicLines`, `readLiteral` and `readLiteralLines` read the four forms after
  their opening quotes.
* `readQuoted` reads a string in any form, `readWithinLine` only in the forms that fit in a line.
* `Form.of` chooses the form in which a text is written, and `write` writes it.
-/

namespace TreeStream.Settings.Toml
set_option autoImplicit false

/-- Characters that only escapes can put into a text; the tabulator is none of them. -/
def isControl (c : Char) : Bool :=
  (c.toNat < 0x20 && c ≠ '\t') || c.toNat = 0x7f

/-- Takes something from the front of a text, unless the text is malformed. -/
abbrev Reader (α : Type) := List Char → Option (α × List Char)

/-- Puts characters in front of those that are read from a text. -/
def ahead (before : List Char) (result : Option (List Char × List Char)) :
    Option (List Char × List Char) :=
  result.map fun result => (before ++ result.1, result.2)

/-! ## Reading -/

/-- The character with a number in hexadecimal digits. -/
def numbered? (digits : List Char) : Option Char := do
  let values ← digits.mapM Json.hexValue?
  let n := values.foldl (fun n value => 16 * n + value) 0
  if n.isValidChar then some (Char.ofNat n) else none

/-- The character that a letter after a backslash stands for. -/
def shortEscape? : Char → Option Char
  | '"' => some '"'
  | '\\' => some '\\'
  | 'b' => some '\x08'
  | 'f' => some '\x0c'
  | 'n' => some '\n'
  | 'r' => some '\r'
  | 't' => some '\t'
  | _ => none

/-- The rest of a string between double quotes. -/
def readBasic : Reader (List Char)
  | [] => none
  | '"' :: rest => some ([], rest)
  | '\\' :: 'u' :: a :: b :: c :: d :: rest =>
    (numbered? [a, b, c, d]).bind fun meant => ahead [meant] (readBasic rest)
  | '\\' :: 'U' :: a :: b :: c :: d :: e :: f :: g :: h :: rest =>
    (numbered? [a, b, c, d, e, f, g, h]).bind fun meant => ahead [meant] (readBasic rest)
  | '\\' :: c :: rest => (shortEscape? c).bind fun meant => ahead [meant] (readBasic rest)
  | c :: rest => if c = '\\' ∨ isControl c then none else ahead [c] (readBasic rest)

/-- The rest of a string between single quotes. -/
def readLiteral : Reader (List Char)
  | [] => none
  | '\'' :: rest => some ([], rest)
  | c :: rest => if isControl c then none else ahead [c] (readLiteral rest)

/-- Three quotes end a string of several lines.  Up to two more quotes before them belong to it. -/
def closing? (quote : Char) : Reader (List Char) := fun cs =>
  let count := min 5 (cs.takeWhile (· = quote)).length
  if count < 3 then none else some (List.replicate (count - 3) quote, cs.drop count)

/-- The blanks within a line. -/
def isBlank (c : Char) : Bool :=
  c = ' ' || c = '\t'

/-- Nothing but blanks is left of the line. -/
def isLineEnd (cs : List Char) : Bool :=
  match cs.dropWhile isBlank with
  | '\n' :: _ => true
  | '\r' :: '\n' :: _ => true
  | _ => false

/-- The rest of a string of several lines between double quotes.  A backslash at the end of a line
takes away the blanks and line ends that follow; `skips` says that this is going on. -/
def readBasicLines : Bool → Reader (List Char)
  | _, [] => none
  | _, '\\' :: 'u' :: a :: b :: c :: d :: rest =>
    (numbered? [a, b, c, d]).bind fun meant => ahead [meant] (readBasicLines false rest)
  | _, '\\' :: 'U' :: a :: b :: c :: d :: e :: f :: g :: h :: rest =>
    (numbered? [a, b, c, d, e, f, g, h]).bind fun meant =>
      ahead [meant] (readBasicLines false rest)
  | _, '\\' :: c :: rest =>
    match shortEscape? c with
    | some meant => ahead [meant] (readBasicLines false rest)
    | none => if isLineEnd (c :: rest) then readBasicLines true rest else none
  | skips, '\r' :: '\n' :: rest =>
    if skips then readBasicLines true rest else ahead ['\n'] (readBasicLines false rest)
  | skips, c :: rest =>
    if skips ∧ (isBlank c ∨ c = '\n') then readBasicLines true rest
    else
      match closing? '"' (c :: rest) with
      | some closed => some closed
      | none =>
        if c = '\\' ∨ (isControl c ∧ c ≠ '\n') then none
        else ahead [c] (readBasicLines false rest)

/-- The rest of a string of several lines between single quotes. -/
def readLiteralLines : Reader (List Char)
  | [] => none
  | '\r' :: '\n' :: rest => ahead ['\n'] (readLiteralLines rest)
  | c :: rest =>
    match closing? '\'' (c :: rest) with
    | some closed => some closed
    | none => if isControl c ∧ c ≠ '\n' then none else ahead [c] (readLiteralLines rest)

/-- A line end right after the opening quotes does not count. -/
def dropLineEnd : List Char → List Char
  | '\n' :: rest => rest
  | '\r' :: '\n' :: rest => rest
  | rest => rest

/-- A string that fits in a line. -/
def readWithinLine : Reader (List Char)
  | '"' :: rest => readBasic rest
  | '\'' :: rest => readLiteral rest
  | _ => none

/-- A string in any form. -/
def readQuoted : Reader (List Char)
  | '"' :: '"' :: '"' :: rest => readBasicLines false (dropLineEnd rest)
  | '\'' :: '\'' :: '\'' :: rest => readLiteralLines (dropLineEnd rest)
  | cs => readWithinLine cs

/-! ## Writing -/

/-- The four forms of a string. -/
inductive Form where
  | basic
  | literal
  | basicLines
  | literalLines
deriving Repr, DecidableEq, Inhabited

namespace Form

/-- The string may have line ends. -/
def hasLines : Form → Bool
  | .basic => false
  | .literal => false
  | .basicLines => true
  | .literalLines => true

/-- Backslashes escape. -/
def hasEscapes : Form → Bool
  | .basic => true
  | .literal => false
  | .basicLines => true
  | .literalLines => false

/-- The quotes on either side. -/
def quotes (form : Form) : List Char :=
  List.replicate (if form.hasLines then 3 else 1) (if form.hasEscapes then '"' else '\'')

end Form

/-- The greatest number of times that a character stands in a row. -/
def longestRun (mark : Char) : Nat → List Char → Nat
  | run, [] => run
  | run, c :: cs =>
    if c = mark then longestRun mark (run + 1) cs else max run (longestRun mark 0 cs)

/-- The form of a text is the first one that holds it without escapes: in one line, and else in
several.  When there is none, escapes are used. -/
def Form.of (cs : List Char) : Form :=
  let plain := cs.all fun c => c = '\n' || !isControl c
  let lines := cs.contains '\n'
  let backslash := cs.contains '\\'
  let doubles := longestRun '"' 0 cs
  let singles := longestRun '\'' 0 cs
  if plain ∧ !backslash ∧ !lines ∧ doubles = 0 then .basic
  else if plain ∧ !lines ∧ singles = 0 then .literal
  else if plain ∧ !backslash ∧ doubles ≤ 2 then .basicLines
  else if plain ∧ singles ≤ 2 then .literalLines
  else if lines then .basicLines
  else .basic

/-- A number in four upper-case hexadecimal digits. -/
def fourDigits (n : Nat) : List Char :=
  let digits := (Text.hexDigits n).map Char.toUpper
  List.replicate (4 - digits.length) '0' ++ digits

/-- The form of a character that is not a quote; line ends stand for themselves where lines may
end. -/
def escape (lines : Bool) (c : Char) : List Char :=
  if c = '\x08' then ['\\', 'b']
  else if c = '\t' then ['\\', 't']
  else if c = '\n' then (if lines then ['\n'] else ['\\', 'n'])
  else if c = '\x0c' then ['\\', 'f']
  else if c = '\r' then ['\\', 'r']
  else if c = '\\' then ['\\', '\\']
  else if isControl c then ['\\', 'u'] ++ fourDigits c.toNat
  else [c]

/-- The inside of a string with escapes; where lines may end, two quotes in a row stand for
themselves. -/
def escapeAll (lines : Bool) : Nat → List Char → List Char
  | _, [] => []
  | run, c :: cs =>
    if c = '"' then
      if lines ∧ run < 2 then '"' :: escapeAll lines (run + 1) cs
      else ['\\', '"'] ++ escapeAll lines 0 cs
    else escape lines c ++ escapeAll lines 0 cs

/-- A text between quotes.  Where lines may end, the first one starts in a line of its own if there
are several. -/
def write (cs : List Char) : List Char :=
  let form := Form.of cs
  form.quotes ++ (if form.hasLines ∧ cs.contains '\n' then ['\n'] else []) ++
    (if form.hasEscapes then escapeAll form.hasLines 0 cs else cs) ++ form.quotes

end TreeStream.Settings.Toml
