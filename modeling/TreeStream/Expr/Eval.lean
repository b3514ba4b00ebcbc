import TreeStream.Expr.Grammar
import TreeStream.Scope
import TreeStream.Text.Blank

/-!
# Evaluating programs

A program is evaluated against variables.  It has a value or an error, and on the way it assigns
variables; a program that fails keeps the assignments that it made before.

* `Evaluator` is any way to evaluate a text: it sees the variables and can do nothing but assign.
* `Expr.eval` is the value of an expression; operands are evaluated from left to right.
* `evaluateProgram` runs statements, and `builtinWith` is the evaluator of the expression language.
  How a text that is no program is reported is not a matter of the language; `builtin` has one
  report for all of them.
-/

namespace TreeStream
set_option autoImplicit false

/-- The outcome of a text: a value or an error, and the assignments that were made in order. -/
structure Evaluation where
  result : Except EvalError Value
  assignments : List (String × Value)

/-- A way to evaluate texts against variables. -/
abbrev Evaluator := String → Vars → Evaluation

namespace Value

/-- A number, or what stands for one: truth values, `null` as zero, and numerals in texts. -/
def toNumber : Value → Except EvalError Float
  | .num x => .ok x
  | .bool b => .ok (if b then 1.0 else 0.0)
  | .null => .ok 0.0
  | .str s =>
    match Number.decimal? (Text.trimChars s.toList) with
    | some x => .ok x
    | none => .error (.type ("'" ++ s ++ "' is not a number"))
  | value => .error (.type ("expected number, got " ++ value.typeName))

/-- A part by name.  Lists and texts have a length, objects their entries; `null` has no parts. -/
def property (value : Value) (name : String) : Except EvalError Value :=
  match value with
  | .list items => .ok (if name = "length" then .num (Float.ofNat items.length) else .null)
  | .str s => .ok (if name = "length" then .num (Float.ofNat s.toList.length) else .null)
  | .obj entries => .ok ((Entries.get? name entries).getD .null)
  | .null => .error (.type ("cannot read property '" ++ name ++ "' of null"))
  | _ => .ok .null

/-- A part by position or name: items of lists and characters of texts by whole numbers from zero
on, other parts by name. -/
def part (object position : Value) : Except EvalError Value :=
  match object, position with
  | .list items, .num x => .ok (((Number.index? x).bind (items[·]?)).getD .null)
  | .str s, .num x =>
    .ok ((((Number.index? x).bind (s.toList[·]?)).map fun c => .str c.toString).getD .null)
  | object, .str name => object.property name
  | object, position =>
    .error (.type ("cannot index " ++ object.typeName ++ " with " ++ position.typeName))

/-- Texts are compared code point by code point, everything else as numbers. -/
def order (numbers : Float → Float → Bool) (texts : String → String → Bool) (left right : Value) :
    Except EvalError Value :=
  match left, right with
  | .str s, .str t => .ok (.bool (texts s t))
  | left, right => do
    let x ← left.toNumber
    let y ← right.toNumber
    .ok (.bool (numbers x y))

/-- A text on either side makes addition join the output forms. -/
def add (left right : Value) : Except EvalError Value :=
  let join : Except EvalError Value := .ok (.str (left.toText ++ right.toText))
  match left, right with
  | .str _, _ => join
  | _, .str _ => join
  | left, right => do
    let x ← left.toNumber
    let y ← right.toNumber
    .ok (.num (x + y))

/-- An operation on two numbers. -/
def arithmetic (operation : Float → Float → Float) (left right : Value) :
    Except EvalError Value := do
  let x ← left.toNumber
  let y ← right.toNumber
  .ok (.num (operation x y))

/-- An operation with a divisor, which is looked at first and must not be zero. -/
def division (operation : Float → Float → Float) (refusal : String) (left right : Value) :
    Except EvalError Value := do
  let y ← right.toNumber
  if y == 0.0 then .error (.type refusal)
  else
    let x ← left.toNumber
    .ok (.num (operation x y))

end Value

/-- The value of an operator on two values. -/
def BinaryOp.apply (op : BinaryOp) (left right : Value) : Except EvalError Value :=
  match op with
  | .eq => .ok (.bool (left == right))
  | .ne => .ok (.bool (left != right))
  | .lt => Value.order (fun x y => x < y) (fun s t => s < t) left right
  | .le => Value.order (fun x y => x ≤ y) (fun s t => !(t < s)) left right
  | .gt => Value.order (fun x y => y < x) (fun s t => t < s) left right
  | .ge => Value.order (fun x y => y ≤ x) (fun s t => !(s < t)) left right
  | .add => Value.add left right
  | .sub => Value.arithmetic (· - ·) left right
  | .mul => Value.arithmetic (· * ·) left right
  | .div => Value.division (· / ·) "division by zero" left right
  | .mod => Value.division Number.remainder "modulo by zero" left right

/-- The value of an operator on one value. -/
def UnaryOp.apply (op : UnaryOp) (value : Value) : Except EvalError Value :=
  match op with
  | .not => .ok (.bool !value.isTruthy)
  | .neg => value.toNumber.map fun x => .num (-x)

mutual

/-- The value of an expression.  `or` and `and` give one of their operands, and look at the right
one only when the left one does not decide. -/
def Expr.eval (vars : Vars) : Expr → Except EvalError Value
  | .null => .ok .null
  | .bool b => .ok (.bool b)
  | .num x => .ok (.num x)
  | .str s => .ok (.str s)
  | .list items => (evalItems vars items).map .list
  | .obj entries => (evalEntries vars entries).map Value.ofEntries
  | .ident name =>
    match vars.get? name with
    | some value => .ok value
    | none => .error (.undefined name)
  | .member object name => do
    let object ← eval vars object
    object.property name
  | .index object position => do
    let object ← eval vars object
    let position ← eval vars position
    object.part position
  | .unary op operand => do
    let value ← eval vars operand
    op.apply value
  | .or left right => do
    let value ← eval vars left
    if value.isTruthy then .ok value else eval vars right
  | .and left right => do
    let value ← eval vars left
    if value.isTruthy then eval vars right else .ok value
  | .binary op left right => do
    let left ← eval vars left
    let right ← eval vars right
    op.apply left right

/-- The values of expressions from left to right. -/
def Expr.evalItems (vars : Vars) : List Expr → Except EvalError (List Value)
  | [] => .ok []
  | item :: items => do
    let value ← eval vars item
    let values ← evalItems vars items
    .ok (value :: values)

/-- The values of entries from left to right. -/
def Expr.evalEntries (vars : Vars) : List (String × Expr) → Except EvalError (List (String × Value))
  | [] => .ok []
  | (name, item) :: entries => do
    let value ← eval vars item
    let values ← evalEntries vars entries
    .ok ((name, value) :: values)

end

/-- Runs statements in turn.  The value is that of the last one, or the given one if there is
none. -/
def evaluateProgram (last : Value) (vars : Vars) : List Stmt → Evaluation
  | [] => ⟨.ok last, []⟩
  | .expr value :: rest =>
    match value.eval vars with
    | .error error => ⟨.error error, []⟩
    | .ok value => evaluateProgram value vars rest
  | .assign name value :: rest =>
    match value.eval vars with
    | .error error => ⟨.error error, []⟩
    | .ok value =>
      let outcome := evaluateProgram value (vars.put name value) rest
      ⟨outcome.result, (name, value) :: outcome.assignments⟩

/-- The evaluator of the expression language, with the words in which a text that is no program is
reported.  Such a text does nothing. -/
def builtinWith (report : String → String) : Evaluator := fun source vars =>
  match Grammar.parse? source with
  | none => ⟨.error (.malformed (report source)), []⟩
  | some program => evaluateProgram .null vars program

/-- The evaluator of the expression language, with the same words for all texts that are no
programs. -/
def builtin : Evaluator :=
  builtinWith fun _ => "<syntax>"

/-- Evaluates a text in a scope, which then holds the assignments. -/
def Scope.evaluate (evaluator : Evaluator) (source : String) (scope : Scope) :
    Except EvalError Value × Scope :=
  let outcome := evaluator source scope.vars
  (outcome.result, scope.setAll outcome.assignments)

end TreeStream
