import GermanLox.Parser.Basic

/-!
# Parsing expressions

From loose to tight: assignment, the operators by precedence, signs, calls and properties, and the
primary forms. Whatever stands inside an expression is read only after a token of it, so
`expression` can recur on the room.
-/

namespace GermanLox

/-- How tightly an operator binds. -/
inductive Precedence where
  | disjunction
  | conjunction
  | equality
  | comparison
  | term
  | factor
deriving DecidableEq

/-- An operator between two operands. -/
inductive Operator where
  | binary (op : BinaryOp)
  | logical (op : LogicalOp)
deriving DecidableEq

namespace Operator

def ofKind? : TokenKind → Option Operator
  | .keyword .oder => some (.logical .or)
  | .keyword .und => some (.logical .and)
  | .symbol .bangEqual => some (.binary .notEqual)
  | .symbol .equalEqual => some (.binary .equal)
  | .symbol .greater => some (.binary .greater)
  | .symbol .greaterEqual => some (.binary .greaterEqual)
  | .symbol .less => some (.binary .less)
  | .symbol .lessEqual => some (.binary .lessEqual)
  | .symbol .minus => some (.binary .subtract)
  | .symbol .plus => some (.binary .add)
  | .symbol .star => some (.binary .multiply)
  | .symbol .slash => some (.binary .divide)
  | _ => none

def precedence : Operator → Precedence
  | logical .or => .disjunction
  | logical .and => .conjunction
  | binary .equal => .equality
  | binary .notEqual => .equality
  | binary .greater => .comparison
  | binary .greaterEqual => .comparison
  | binary .less => .comparison
  | binary .lessEqual => .comparison
  | binary .add => .term
  | binary .subtract => .term
  | binary .multiply => .factor
  | binary .divide => .factor

/-- The operator of a given precedence that a token stands for. -/
def at? (level : Precedence) (t : Token) : Option Operator :=
  (ofKind? t.kind).filter (·.precedence = level)

/-- The expression that applies an operator. -/
def apply (op : Operator) (id : ExprId) (token : Token) (left right : Expr) : Expr :=
  match op with
  | binary op => .binary id op token left right
  | logical op => .logical id op token left right

end Operator

/-- The sign that a token stands for in front of an operand. -/
def UnaryOp.ofKind? : TokenKind → Option UnaryOp
  | .symbol .bang => some .not
  | .symbol .minus => some .negate
  | _ => none

namespace Parser

/-- A literal for the token that comes next. -/
def literal (value : Literal) : Parser Expr := do
  advance
  return .literal (← freshId) value

/-- Literals, names, `dies`, `super` with a method, and groups. -/
def primary (inner : Parser Expr) : Parser Expr := do
  match ← peek? with
  | none => fail .expressionExpected
  | some t =>
    match t.kind with
    | .keyword .falsch => literal (.bool false)
    | .keyword .wahr => literal (.bool true)
    | .keyword .nichts => literal .nil
    | .number value => literal (.number value)
    | .string value => literal (.string value)
    | .keyword .super =>
      advance
      let _ ← expect (·.isSymbol .dot) .superDotExpected
      let method ← expect (·.isIdentifier) .superMethodExpected
      return .super (← freshId) t method
    | .keyword .dies =>
      advance
      return .this (← freshId) t
    | .identifier =>
      advance
      return .var (← freshId) t
    | .symbol .leftParen =>
      advance
      let e ← inner
      let _ ← expect (·.isSymbol .rightParen) .groupingEndExpected
      return .grouping (← freshId) e
    | _ => fail .expressionExpected

/-- Argument lists and property names after an expression. -/
def suffixes (inner : Parser Expr) : Nat → Expr → Parser Expr
  | 0, e => return e
  | room + 1, e => do
    match ← accept? (·.isSymbol .leftParen) with
    | some _ =>
      let arguments ← entriesOrNone inner .tooManyArguments room
      let paren ← expect (·.isSymbol .rightParen) .argumentsEndExpected
      suffixes inner room (.call (← freshId) e paren arguments)
    | none =>
      match ← accept? (·.isSymbol .dot) with
      | some _ =>
        let name ← expect (·.isIdentifier) .propertyNameExpected
        suffixes inner room (.get (← freshId) e name)
      | none => return e

/-- A primary form with its calls and properties. -/
def call (room : Nat) (inner : Parser Expr) : Parser Expr := do
  let e ← primary inner
  suffixes inner room e

/-- The signs in front of an operand, outermost first. -/
def signs : Nat → Parser (List (UnaryOp × Token))
  | 0 => return []
  | room + 1 => do
    match ← accept? fun t => (UnaryOp.ofKind? t.kind).isSome with
    | none => return []
    | some t =>
      let inner ← signs room
      return (UnaryOp.ofKind? t.kind).toList.map (·, t) ++ inner

/-- An expression under signs, the last one applied first. -/
def signed : List (UnaryOp × Token) → Expr → Parser Expr
  | [], e => return e
  | (op, t) :: rest, e => do
    let operand ← signed rest e
    return .unary (← freshId) op t operand

def unary (room : Nat) (inner : Parser Expr) : Parser Expr := do
  let ops ← signs room
  let e ← call room inner
  signed ops e

/-- Further operands of one precedence, grouped to the left. -/
def operands (level : Precedence) (operand : Parser Expr) : Nat → Expr → Parser Expr
  | 0, left => return left
  | room + 1, left => do
    match ← peek? with
    | none => return left
    | some t =>
      match Operator.at? level t with
      | none => return left
      | some op =>
        advance
        let right ← operand
        operands level operand room (op.apply (← freshId) t left right)

/-- One level of operators over a tighter one. -/
def operation (room : Nat) (operand : Parser Expr) (level : Precedence) : Parser Expr := do
  let first ← operand
  operands level operand room first

/-- All operators, from the tightest to the loosest. -/
def operations (room : Nat) (inner : Parser Expr) : Parser Expr :=
  [.factor, .term, .comparison, .equality, .conjunction, .disjunction].foldl (operation room)
    (unary room inner)

/-- An assignment, if an equals sign follows. Only names and properties take one; another left
side is noted at the sign and stays as the expression. -/
def assignment (room : Nat) (inner : Parser Expr) : Parser Expr := do
  let target ← operations room inner
  match ← accept? (·.isSymbol .equal) with
  | none => return target
  | some sign =>
    let value ← inner
    match target with
    | .var _ name => return .assign (← freshId) name value
    | .get _ object name => return .set (← freshId) object name value
    | _ =>
      note sign.line .invalidAssignmentTarget
      return target

def expression : Nat → Parser Expr
  | 0 => fail .expressionExpected
  | room + 1 => assignment (room + 1) (expression room)

end Parser
end GermanLox
