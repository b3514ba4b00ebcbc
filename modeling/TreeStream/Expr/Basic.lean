import TreeStream.Value

/-!
# Expressions

The abstract form of the expression language: literals, variables, access to parts, operators, and
assignments at the level of statements.

* `Expr` and `Stmt` are the forms; a program is a list of statements.
* `EvalError` says why a program has no value, and `EvalError.message` says it in words.
-/

namespace TreeStream
set_option autoImplicit false

/-- The operators on one operand. -/
inductive UnaryOp where
  | not
  | neg
deriving Repr, DecidableEq, Inhabited

/-- The operators that need the values of both operands. -/
inductive BinaryOp where
  | eq
  | ne
  | lt
  | le
  | gt
  | ge
  | add
  | sub
  | mul
  | div
  | mod
deriving Repr, DecidableEq, Inhabited

/-- An expression; the entries of an object stand in the order of the text, repeats included. -/
inductive Expr where
  | null
  | bool (b : Bool)
  | num (x : Float)
  | str (s : String)
  | list (items : List Expr)
  | obj (entries : List (String × Expr))
  | ident (name : String)
  | member (object : Expr) (property : String)
  | index (object position : Expr)
  | unary (op : UnaryOp) (operand : Expr)
  | or (left right : Expr)
  | and (left right : Expr)
  | binary (op : BinaryOp) (left right : Expr)
deriving Inhabited

/-- A statement; its value is that of its expression. -/
inductive Stmt where
  | assign (name : String) (value : Expr)
  | expr (value : Expr)
deriving Inhabited

/-- Why a program has no value. -/
inductive EvalError where
  | malformed (report : String)
  | undefined (name : String)
  | type (report : String)
deriving Repr, DecidableEq, Inhabited

/-- The error in words. -/
def EvalError.message : EvalError → String
  | .malformed report => "syntax error: " ++ report
  | .undefined name => name ++ " is not defined"
  | .type report => "type error: " ++ report

end TreeStream
