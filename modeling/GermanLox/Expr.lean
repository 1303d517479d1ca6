import GermanLox.Token

/-!
# Expressions

Every node carries a number of its own, by which static analysis speaks about it. Operators keep
their meaning and the token they were written as.
-/

namespace GermanLox

/-- The number of an expression node. It is taken that numbers do not run out: a list of tokens is
given at most one for each token, so that they fit into a word as long as the first one and the
tokens together do. -/
abbrev ExprId := Nat

inductive Literal where
  | nil
  | bool (value : Bool)
  | number (value : Float)
  | string (value : String)
deriving DecidableEq

inductive UnaryOp where
  | negate
  | not
deriving DecidableEq

inductive BinaryOp where
  | equal
  | notEqual
  | greater
  | greaterEqual
  | less
  | lessEqual
  | add
  | subtract
  | multiply
  | divide
deriving DecidableEq

inductive LogicalOp where
  | and
  | or
deriving DecidableEq

inductive Expr where
  | literal (id : ExprId) (value : Literal)
  | grouping (id : ExprId) (inner : Expr)
  | unary (id : ExprId) (op : UnaryOp) (token : Token) (operand : Expr)
  | binary (id : ExprId) (op : BinaryOp) (token : Token) (left right : Expr)
  | logical (id : ExprId) (op : LogicalOp) (token : Token) (left right : Expr)
  | var (id : ExprId) (name : Token)
  | assign (id : ExprId) (name : Token) (value : Expr)
  | call (id : ExprId) (callee : Expr) (paren : Token) (arguments : List Expr)
  | get (id : ExprId) (object : Expr) (name : Token)
  | set (id : ExprId) (object : Expr) (name : Token) (value : Expr)
  | this (id : ExprId) (keyword : Token)
  | super (id : ExprId) (keyword : Token) (method : Token)

/-- The number of a node. -/
def Expr.id : Expr → ExprId
  | literal id .. => id
  | grouping id .. => id
  | unary id .. => id
  | binary id .. => id
  | logical id .. => id
  | var id .. => id
  | assign id .. => id
  | call id .. => id
  | get id .. => id
  | set id .. => id
  | this id .. => id
  | super id .. => id

end GermanLox
