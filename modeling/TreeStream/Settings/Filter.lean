import TreeStream.Engine.State
import TreeStream.Text.Alphanumeric

/-!
# Filters of the log

A filter decides which entries of the log are shown.  How its text is read is not a matter of this
library: whoever needs a filter takes a `FilterReader`.

* `LogEntry.source` names the part of the program that an entry comes from.
* `LogFilter.read` is the reader of the program.  A filter is a list of parts between commas: a
  level, or the beginning of the names of sources, perhaps with a span and its fields in brackets
  and with a level behind an equals sign.  The values of fields are not looked into.
* `LogFilter.shows` is the filter of some parts.
-/

namespace TreeStream
set_option autoImplicit false

/-- What is shown of the log. -/
abbrev LogFilter := LogEntry → Bool

/-- Reads filters, and says in words why a text is none. -/
abbrev FilterReader := String → Except String LogFilter

/-- Graver entries have smaller numbers. -/
def Severity.rank : Severity → Nat
  | .error => 1
  | .warn => 2
  | .info => 3

/-- The part of the program that an entry comes from. -/
def LogEntry.source : LogEntry → String
  | .evaluationFailed _ _ => "textree_core::engine"
  | .misuse (.unknownDirective _) => "textree_core::engine::exec_loop"
  | .misuse _ => "textree_core::engine::commands"
  | .snapshot _ => "textree_core::engine::commands"
  | .processed _ => "textree_core::cli"

namespace LogFilter

/-- A part of a filter: entries of sources that begin like `source` are shown up to a rank.  A part
with brackets is about what happens inside of spans, and no entry is. -/
structure Part where
  source : List Char := []
  bracketed : Bool := false
  rank : Nat
deriving Repr, DecidableEq, Inhabited

/-- The rank of a level, which is given by name, in any letter case, or by number. -/
def rank? (word : List Char) : Option Nat :=
  let digits := if word.head? = some '+' then word.tail else word
  if digits ≠ [] ∧ digits.all Char.isDigit then
    let rank := Number.digitsValue digits
    if rank ≤ 5 then some rank else none
  else
    let word := word.map Char.toLower
    ["off", "error", "warn", "info", "debug", "trace"].findIdx? fun name => name.toList = word

/-- The rank that lets everything through. -/
def highest : Nat := 5

def malformed : String :=
  "invalid filter directive"

def unknownLevel : String :=
  "error parsing level filter: expected one of \"off\", \"error\", \"warn\", \"info\", " ++
    "\"debug\", \"trace\", or a number 0-5"

/-- The part of a source with what follows its equals sign, where there need not be a level. -/
def readRank (source : List Char) (bracketed : Bool) (word : List Char) : Except String Part :=
  if word = [] then .ok { source, bracketed, rank := highest }
  else
    match rank? word with
    | some rank => .ok { source, bracketed, rank }
    | none => .error unknownLevel

/-- The part of a source with what follows its brackets. -/
def readRest (source : List Char) : List Char → Except String Part
  | [] => .ok { source, bracketed := true, rank := highest }
  | '=' :: word => readRank source true word
  | _ => .error malformed

/-- The part of a source with what follows its opening bracket: the name of a span, fields between
braces, or both. -/
def readBrackets (source cs : List Char) : Except String Part :=
  match cs.dropWhile fun c => c ≠ ']' && c ≠ '\x7b' with
  | ']' :: rest => readRest source rest
  | '\x7b' :: fields =>
    match fields.dropWhile (· ≠ '\x7d') with
    | '\x7d' :: ']' :: rest =>
      if fields.head? = some '\x7d' then .error malformed else readRest source rest
    | _ => .error malformed
  | _ => .error malformed

/-- The character may begin the name of a source. -/
def isSourceStart (c : Char) : Bool :=
  Text.isAlphanumeric c || c = '_' || c = ':' || c = '-'

/-- Reads a part of a filter.  A word on its own is a level if it can be. -/
def readPart (part : List Char) : Except String Part :=
  match Text.trimChars part with
  | [] => .error malformed
  | '[' :: rest => readBrackets [] rest
  | c :: rest =>
    if isSourceStart c then
      let source := c :: rest.takeWhile fun c => c ≠ '=' && c ≠ '['
      match rest.dropWhile fun c => c ≠ '=' && c ≠ '[' with
      | '=' :: word => readRank source false word
      | '[' :: rest => readBrackets source rest
      | _ =>
        match rank? source with
        | some rank => .ok { rank }
        | none => .ok { source, rank := highest }
    else .error malformed

/-- The one of two parts that names more of a source, or the second one. -/
def closer (closest : Option Part) (part : Part) : Option Part :=
  if closest.all fun other => other.source.length ≤ part.source.length then some part else closest

/-- Of the parts about the source of an entry the one that names most of it counts, and the last one
of these.  Only the gravest entries are shown if there are no parts at all. -/
def shows (parts : List Part) : LogFilter := fun entry =>
  let about := parts.filter fun part =>
    !part.bracketed && part.source.isPrefixOf entry.source.toList
  let closest := about.foldl closer none
  if parts.isEmpty then entry.severity.rank ≤ Severity.error.rank
  else closest.any fun part => entry.severity.rank ≤ part.rank

/-- Reads a filter.  The first faulty part decides. -/
def read : FilterReader := fun text =>
  if text = "" then .ok (shows [])
  else ((Text.splitAll ',' text.toList).mapM readPart).map shows

end LogFilter
end TreeStream
