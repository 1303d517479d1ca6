import GermanLox.Expr

/-!
# Statements
-/

namespace GermanLox

mutual

/-- A named function or method with its parameters and body. -/
structure FunctionDecl where
  name : Token
  params : List Token
  body : List Stmt

inductive Stmt where
  | expression (e : Expr)
  | print (e : Expr)
  | varDecl (name : Token) (initializer : Option Expr)
  | block (body : List Stmt)
  | ifElse (condition : Expr) (thenBranch : Stmt) (elseBranch : Option Stmt)
  | loop (condition : Expr) (body : Stmt)
  | funDecl (decl : FunctionDecl)
  | ret (keyword : Token) (value : Option Expr)
  | classDecl (name : Token) (superclass : Option Expr) (methods : List FunctionDecl)

end

/-- The name under which a method finds its receiver. -/
def thisName : String := "dies"

/-- The name under which methods find the superclass. -/
def superName : String := "super"

/-- The name of the method that sets up a new instance. -/
def initializerName : String := "init"

/-- How many arguments a function takes. -/
def FunctionDecl.arity (decl : FunctionDecl) : Nat :=
  decl.params.length

end GermanLox
