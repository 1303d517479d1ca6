import GermanLox.Diagnostic
import GermanLox.Scope.Distances
import GermanLox.Stmt

/-!
# Binding names to scopes

A walk over a program that keeps the stack of open local scopes. At every occurrence of a name it
records how many scopes out the name is declared, and it notes what no program may do: declare a
name twice in a scope, read a variable in its own initializer, or return, say `dies` or say
`super` where there is nothing to return from or to mean.
-/

namespace GermanLox

/-- The function that the walk is in. -/
inductive FunctionContext where
  | outside
  | function
  | method
  | initializer
deriving DecidableEq

/-- The class that the walk is in. -/
inductive ClassContext where
  | outside
  | base
  | derived
deriving DecidableEq

/-- The names of a scope; those whose initializer is still open map to `false`. -/
abbrev Scope := Std.TreeMap String Bool

structure Resolver where
  /-- The open local scopes, innermost first. -/
  scopes : List Scope := []
  functionContext : FunctionContext := .outside
  classContext : ClassContext := .outside
  /-- What has been recorded since the last program without faults. -/
  distances : Distances := {}
  diagnostics : List Diagnostic := []

namespace Resolver

def note (token : Token) (cause : ScopeFault) (r : Resolver) : Resolver :=
  { r with diagnostics := r.diagnostics ++ [.scoping token cause] }

def openScope (r : Resolver) : Resolver :=
  { r with scopes := {} :: r.scopes }

def closeScope (r : Resolver) : Resolver :=
  { r with scopes := r.scopes.tail }

/-- Enters a name into the innermost scope. There is none at the top level. -/
def enter (name : String) (ready : Bool) (r : Resolver) : Resolver :=
  match r.scopes with
  | [] => r
  | scope :: outer => { r with scopes := scope.insert name ready :: outer }

/-- Whether the innermost scope has the name. -/
def isDeclared (name : String) (r : Resolver) : Bool :=
  r.scopes.head?.any (·.contains name)

/-- Enters a name that cannot be read yet; a name may be declared once in a scope. -/
def declare (name : Token) (r : Resolver) : Resolver :=
  let entered := r.enter name.lexeme false
  if r.isDeclared name.lexeme then entered.note name .alreadyDeclared else entered

/-- Makes a declared name readable. -/
def define (name : Token) (r : Resolver) : Resolver :=
  r.enter name.lexeme true

/-- Whether the innermost scope has the name with its initializer still open. -/
def isInitializing (name : String) (r : Resolver) : Bool :=
  r.scopes.head?.any (·[name]? = some false)

/-- Records how far out the innermost scope with the name is, if there is one. -/
def bind (id : ExprId) (name : String) (r : Resolver) : Resolver :=
  match r.scopes.findIdx? (·.contains name) with
  | none => r
  | some distance => { r with distances := r.distances.insert id distance }

mutual

def expr : Expr → Resolver → Resolver
  | .literal .., r => r
  | .grouping _ e, r => expr e r
  | .unary _ _ _ e, r => expr e r
  | .binary _ _ _ left right, r => expr right (expr left r)
  | .logical _ _ _ left right, r => expr right (expr left r)
  | .var id name, r =>
    let checked :=
      if r.isInitializing name.lexeme then r.note name .readInOwnInitializer else r
    checked.bind id name.lexeme
  | .assign id name value, r => (expr value r).bind id name.lexeme
  | .call _ callee _ arguments, r => exprs arguments (expr callee r)
  | .get _ object _, r => expr object r
  | .set _ object _ value, r => expr object (expr value r)
  | .this id keyword, r =>
    match r.classContext with
    | .outside => r.note keyword .thisOutsideClass
    | .base => r.bind id keyword.lexeme
    | .derived => r.bind id keyword.lexeme
  | .super id keyword _, r =>
    let checked :=
      match r.classContext with
      | .outside => r.note keyword .superOutsideClass
      | .base => r.note keyword .superWithoutSuperclass
      | .derived => r
    checked.bind id keyword.lexeme

def exprs : List Expr → Resolver → Resolver
  | [], r => r
  | e :: es, r => exprs es (expr e r)

end

def optionalExpr : Option Expr → Resolver → Resolver
  | none, r => r
  | some e, r => expr e r

/-- Enters the parameters of a function. -/
def parameters (params : List Token) (r : Resolver) : Resolver :=
  params.foldl (fun r param => (r.declare param).define param) r

/-- Checks a return against the function it stands in. -/
def checkReturn (keyword : Token) (hasValue : Bool) (r : Resolver) : Resolver :=
  match r.functionContext with
  | .outside => r.note keyword .returnAtTopLevel
  | .initializer => if hasValue then r.note keyword .returnValueFromInitializer else r
  | .function => r
  | .method => r

/-- A class cannot name itself as its superclass. -/
def checkSuperclass (name : Token) (superclass : Expr) (r : Resolver) : Resolver :=
  match superclass with
  | .var _ parent => if parent.lexeme = name.lexeme then r.note parent .inheritsFromItself else r
  | _ => r

/-- Resolves the superclass of a class, if it has one, and opens the scope that names it. -/
def openSuperclass (name : Token) : Option Expr → Resolver → Resolver
  | none, r => r
  | some superclass, r =>
    let checked := r.checkSuperclass name superclass
    let resolved := expr superclass { checked with classContext := .derived }
    resolved.openScope.enter superName true

/-- Closes the scope that names the superclass, if there is one. -/
def closeSuperclass : Option Expr → Resolver → Resolver
  | none, r => r
  | some _, r => r.closeScope

/-- The context of a method's body. -/
def methodContext (decl : FunctionDecl) : FunctionContext :=
  if decl.name.lexeme = initializerName then .initializer else .method

mutual

def stmt : Stmt → Resolver → Resolver
  | .expression e, r => expr e r
  | .print e, r => expr e r
  | .varDecl name initializer, r => (optionalExpr initializer (r.declare name)).define name
  | .block body, r => (stmts body r.openScope).closeScope
  | .ifElse condition thenBranch none, r => stmt thenBranch (expr condition r)
  | .ifElse condition thenBranch (some elseBranch), r =>
    stmt elseBranch (stmt thenBranch (expr condition r))
  | .loop condition body, r => stmt body (expr condition r)
  | .funDecl decl, r => function .function decl ((r.declare decl.name).define decl.name)
  | .ret keyword value, r => optionalExpr value (r.checkReturn keyword value.isSome)
  | .classDecl name superclass methods, r =>
    let declared := ({ r with classContext := .base }.declare name).define name
    let inside := (declared.openSuperclass name superclass).openScope.enter thisName true
    let outside := ((functions methods inside).closeScope).closeSuperclass superclass
    { outside with classContext := r.classContext }

def stmts : List Stmt → Resolver → Resolver
  | [], r => r
  | s :: ss, r => stmts ss (stmt s r)

/-- Parameters and body of a function share one scope. -/
def function (context : FunctionContext) : FunctionDecl → Resolver → Resolver
  | ⟨_, params, body⟩, r =>
    let inside := { r with functionContext := context }.openScope.parameters params
    { (stmts body inside).closeScope with functionContext := r.functionContext }

/-- The methods of a class. -/
def functions : List FunctionDecl → Resolver → Resolver
  | [], r => r
  | decl :: decls, r => functions decls (function (methodContext decl) decl r)

end

/-- Resolves a program. Without faults the recorded distances are handed out; after faults they
stay for the next program, and the faults are handed out. -/
def resolve (program : List Stmt) (r : Resolver) :
    Except (List Diagnostic) Distances × Resolver :=
  let r := stmts program r
  if r.diagnostics.isEmpty then (.ok r.distances, { r with distances := {} })
  else (.error r.diagnostics, { r with diagnostics := [] })

end Resolver

/-- The distances of a program on its own. -/
def resolve (program : List Stmt) : Except (List Diagnostic) Distances :=
  (Resolver.resolve program {}).1

end GermanLox
