import TreeStream.Expr.Basic
import TreeStream.Expr.Token

/-!
# The grammar of expressions

A program is a list of statements with semicolons between them and at most one after the last.
Operators of six levels, from the loosest to the tightest, group to the left; signs in front of an
operand come next, and access to parts binds tightest.  Tokens decide every choice, so what fails
once fails for good.

* `levels` lists the operators; `chain` reads one level, `binary` all of them.
* `expression count depth` reads an expression with brackets nested less than `depth` deep and no
  more than `count` repetitions in a row.
* `program?` reads the tokens of a program, and `parse?` its text.
-/

namespace TreeStream.Grammar
set_option autoImplicit false

/-- Takes a part of a program from the front of its tokens. -/
abbrev Reader (α : Type) := List Token → Option (α × List Token)

/-- The operators of one level, with the expressions that they make. -/
abbrev Level := Symbol → Option (Expr → Expr → Expr)

/-- The levels of operators, loosest first. -/
def levels : List Level :=
  [fun | .or => some .or | _ => none,
   fun | .and => some .and | _ => none,
   fun | .eq => some (.binary .eq) | .ne => some (.binary .ne) | _ => none,
   fun
    | .le => some (.binary .le) | .ge => some (.binary .ge)
    | .lt => some (.binary .lt) | .gt => some (.binary .gt)
    | _ => none,
   fun | .plus => some (.binary .add) | .minus => some (.binary .sub) | _ => none,
   fun
    | .star => some (.binary .mul) | .slash => some (.binary .div) | .percent => some (.binary .mod)
    | _ => none]

/-- What follows the first operand of a level: at most `count` operators with their right
operands. -/
def chainRest (level : Level) (operand : Reader Expr) : Nat → Expr → Reader Expr
  | 0, left, tokens => some (left, tokens)
  | count + 1, left, .symbol s :: rest =>
    match level s with
    | none => some (left, .symbol s :: rest)
    | some make =>
      match operand rest with
      | none => none
      | some (right, rest) => chainRest level operand count (make left right) rest
  | _ + 1, left, tokens => some (left, tokens)

/-- Operands of one level with at most `count` of its operators between them, grouped to the
left. -/
def chain (count : Nat) (level : Level) (operand : Reader Expr) : Reader Expr := fun tokens =>
  match operand tokens with
  | none => none
  | some (left, rest) => chainRest level operand count left rest

/-- An expression of the given levels over operands without operators between them. -/
def binary (count : Nat) (operand : Reader Expr) : List Level → Reader Expr
  | [] => operand
  | level :: tighter => chain count level (binary count operand tighter)

/-- Signs in front of an operand; the one next to the operand applies first. -/
def signed (operand : Reader Expr) : Reader Expr
  | .symbol .bang :: rest =>
    (signed operand rest).map fun result => (.unary .not result.1, result.2)
  | .symbol .minus :: rest =>
    (signed operand rest).map fun result => (.unary .neg result.1, result.2)
  | tokens => operand tokens

/-- Accesses to parts that follow an expression, at most `count` of them. -/
def accesses (expression : Reader Expr) : Nat → Expr → Reader Expr
  | 0, object, tokens => some (object, tokens)
  | count + 1, object, .symbol .dot :: rest =>
    match rest with
    | .ident name :: rest => accesses expression count (.member object name) rest
    | _ => none
  | count + 1, object, .symbol .leftBracket :: rest =>
    match expression rest with
    | some (position, .symbol .rightBracket :: rest) =>
      accesses expression count (.index object position) rest
    | _ => none
  | _ + 1, object, tokens => some (object, tokens)

/-- Parts with commas between them up to a closing symbol: one part, and at most `count` more. -/
def listed {α : Type} (part : Reader α) (close : Symbol) : Nat → Reader (List α)
  | 0, _ => none
  | count + 1, tokens =>
    match part tokens with
    | some (first, .symbol s :: rest) =>
      if s = close then some ([first], rest)
      else if s = .comma then
        (listed part close count rest).map fun result => (first :: result.1, result.2)
      else none
    | _ => none

/-- Any number of parts, up to `count`, with commas between them up to a closing symbol. -/
def enclosed {α : Type} (count : Nat) (part : Reader α) (close : Symbol) : Reader (List α)
  | .symbol s :: rest =>
    if s = close then some ([], rest) else listed part close count (.symbol s :: rest)
  | tokens => listed part close count tokens

/-- An entry of an object: a name or a string, a colon and an expression. -/
def entry (expression : Reader Expr) : Reader (String × Expr)
  | .ident name :: .symbol .colon :: rest =>
    (expression rest).map fun result => ((name, result.1), result.2)
  | .str name :: .symbol .colon :: rest =>
    (expression rest).map fun result => ((name, result.1), result.2)
  | _ => none

/-- Literals, names, lists, objects and expressions in parentheses. -/
def primary (count : Nat) (expression : Reader Expr) : Reader Expr
  | .null :: rest => some (.null, rest)
  | .bool b :: rest => some (.bool b, rest)
  | .num x :: rest => some (.num x, rest)
  | .str s :: rest => some (.str s, rest)
  | .ident name :: rest => some (.ident name, rest)
  | .symbol .leftParen :: rest =>
    match expression rest with
    | some (inner, .symbol .rightParen :: rest) => some (inner, rest)
    | _ => none
  | .symbol .leftBracket :: rest =>
    (enclosed count expression .rightBracket rest).map fun result => (.list result.1, result.2)
  | .symbol .leftBrace :: rest =>
    (enclosed count (entry expression) .rightBrace rest).map fun result =>
      (.obj result.1, result.2)
  | _ => none

/-- A primary expression with the accesses that follow it. -/
def accessed (count : Nat) (expression : Reader Expr) : Reader Expr := fun tokens =>
  match primary count expression tokens with
  | none => none
  | some (object, rest) => accesses expression count object rest

/-- An expression in which brackets are nested less than `depth` deep, and in which at most `count`
operators, parts or accesses follow each other. -/
def expression (count : Nat) : Nat → Reader Expr
  | 0 => fun _ => none
  | depth + 1 => binary count (signed (accessed count (expression count depth))) levels

/-- A name and a single equals sign start an assignment; everything else is an expression. -/
def statement (expression : Reader Expr) : Reader Stmt
  | .ident name :: .symbol .assign :: rest =>
    (expression rest).map fun result => (.assign name result.1, result.2)
  | tokens => (expression tokens).map fun result => (.expr result.1, result.2)

/-- At most `count` statements that make up all the tokens. -/
def statements (expression : Reader Expr) : Nat → List Token → Option (List Stmt)
  | 0, _ => none
  | count + 1, tokens =>
    match statement expression tokens with
    | some (first, []) => some [first]
    | some (first, [.symbol .semicolon]) => some [first]
    | some (first, .symbol .semicolon :: rest) =>
      (statements expression count rest).map (first :: ·)
    | _ => none

/-- The statements of a program; nothing in them outnumbers the tokens. -/
def program? (tokens : List Token) : Option (List Stmt) :=
  let count := tokens.length + 1
  statements (expression count count) count tokens

/-- The statements of a program text. -/
def parse? (source : String) : Option (List Stmt) :=
  (Token.scan source.toList).bind program?

end TreeStream.Grammar
