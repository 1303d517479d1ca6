import GermanLox.Proofs.Reading.Contents
import Mathlib.Logic.Function.Basic

/-!
# What names stand for

The text alone tells which local variable or parameter a name stands for: the one declared last
before it in the blocks around it. A variable is known by the token that declares it, and it stands
for itself there. Names of functions and classes, and names that are not local, stand for no local
variable.

The other part of this file is about assignments: those that stand in the initializer of the very
variable they set.
-/

namespace GermanLox

/-- The local variable that each name stands for, by the token that declares it. -/
abbrev Bindings := String → Option Token

namespace Bindings

def none : Bindings :=
  fun _ => .none

/-- What names stand for after a declaration of a name, with the variable that it is. Only inside of
a block or function are names local; there a name hides what it stood for before. -/
def enter (env : Bindings) (inner : Bool) (o : Token × Option Token) : Bindings :=
  if inner then Function.update env o.1.lexeme o.2 else env

def withParameters (env : Bindings) (params : List Token) : Bindings :=
  params.foldl (fun env t => env.enter true (t, some t)) env

end Bindings

mutual

/-- The tokens of an expression, each with the local variable it stands for. -/
def Expr.occurrences (env : Bindings) : Expr → List (Token × Option Token)
  | .literal .. => []
  | .grouping _ e => e.occurrences env
  | .unary _ _ t e => (t, none) :: e.occurrences env
  | .binary _ _ t left right => (t, none) :: (left.occurrences env ++ right.occurrences env)
  | .logical _ _ t left right => (t, none) :: (left.occurrences env ++ right.occurrences env)
  | .var _ name => [(name, env name.lexeme)]
  | .assign _ name value => (name, env name.lexeme) :: value.occurrences env
  | .call _ callee paren arguments =>
    (paren, none) :: (callee.occurrences env ++ Expr.occurrencesAll env arguments)
  | .get _ object name => (name, none) :: object.occurrences env
  | .set _ object name value =>
    (name, none) :: (object.occurrences env ++ value.occurrences env)
  | .this _ keyword => [(keyword, none)]
  | .super _ keyword method => [(keyword, none), (method, none)]

def Expr.occurrencesAll (env : Bindings) : List Expr → List (Token × Option Token)
  | [] => []
  | e :: es => e.occurrences env ++ Expr.occurrencesAll env es

end

def Expr.occurrencesOf (env : Bindings) : Option Expr → List (Token × Option Token)
  | none => []
  | some e => e.occurrences env

/-- The name that a statement declares where it stands, with the variable that it is. -/
def Stmt.declares? : Stmt → Option (Token × Option Token)
  | .varDecl name _ => some (name, some name)
  | .funDecl decl => some (decl.name, none)
  | .classDecl name _ _ => some (name, none)
  | _ => none

/-- What names stand for after a statement. -/
def Stmt.bindings (inner : Bool) (env : Bindings) (s : Stmt) : Bindings :=
  match s.declares? with
  | none => env
  | some o => env.enter inner o

mutual

/-- The tokens of a statement, each with the local variable it stands for. -/
def Stmt.occurrences (inner : Bool) (env : Bindings) : Stmt → List (Token × Option Token)
  | .expression e => e.occurrences env
  | .print e => e.occurrences env
  | .varDecl name initializer =>
    (name, if inner then some name else none) ::
      Expr.occurrencesOf (env.enter inner (name, some name)) initializer
  | .block body => Stmt.occurrencesAll true env body
  | .ifElse condition thenBranch none =>
    condition.occurrences env ++ thenBranch.occurrences inner env
  | .ifElse condition thenBranch (some elseBranch) =>
    condition.occurrences env ++
      (thenBranch.occurrences inner env ++ elseBranch.occurrences inner env)
  | .loop condition body => condition.occurrences env ++ body.occurrences inner env
  | .funDecl decl => decl.occurrences (env.enter inner (decl.name, none))
  | .ret keyword value => (keyword, none) :: Expr.occurrencesOf env value
  | .classDecl name superclass methods =>
    (name, none) ::
      (Expr.occurrencesOf (env.enter inner (name, none)) superclass ++
        FunctionDecl.occurrencesAll (env.enter inner (name, none)) methods)

def Stmt.occurrencesAll (inner : Bool) (env : Bindings) : List Stmt → List (Token × Option Token)
  | [] => []
  | s :: ss => s.occurrences inner env ++ Stmt.occurrencesAll inner (s.bindings inner env) ss

def FunctionDecl.occurrences (env : Bindings) : FunctionDecl → List (Token × Option Token)
  | ⟨name, params, body⟩ =>
    (name, none) :: (params.map (fun t => (t, some t)) ++
      Stmt.occurrencesAll true (env.withParameters params) body)

def FunctionDecl.occurrencesAll (env : Bindings) :
    List FunctionDecl → List (Token × Option Token)
  | [] => []
  | decl :: decls => decl.occurrences env ++ FunctionDecl.occurrencesAll env decls

end

mutual

lemma Expr.map_fst_occurrences (env : Bindings) (e : Expr) :
    (e.occurrences env).map Prod.fst = e.tokens := by
  match e with
  | .literal .. => rfl
  | .grouping _ e => exact Expr.map_fst_occurrences env e
  | .unary _ _ _ e => simp [occurrences, tokens, Expr.map_fst_occurrences env e]
  | .binary _ _ _ l r =>
    simp [occurrences, tokens, Expr.map_fst_occurrences env l, Expr.map_fst_occurrences env r]
  | .logical _ _ _ l r =>
    simp [occurrences, tokens, Expr.map_fst_occurrences env l, Expr.map_fst_occurrences env r]
  | .var .. => rfl
  | .assign _ _ e => simp [occurrences, tokens, Expr.map_fst_occurrences env e]
  | .call _ e _ es =>
    simp [occurrences, tokens, Expr.map_fst_occurrences env e,
      Expr.map_fst_occurrencesAll env es]
  | .get _ e _ => simp [occurrences, tokens, Expr.map_fst_occurrences env e]
  | .set _ e _ v =>
    simp [occurrences, tokens, Expr.map_fst_occurrences env e, Expr.map_fst_occurrences env v]
  | .this .. => rfl
  | .super .. => rfl

lemma Expr.map_fst_occurrencesAll (env : Bindings) (es : List Expr) :
    (Expr.occurrencesAll env es).map Prod.fst = Expr.tokensAll es := by
  match es with
  | [] => rfl
  | e :: es =>
    simp [occurrencesAll, tokensAll, Expr.map_fst_occurrences env e,
      Expr.map_fst_occurrencesAll env es]

end

lemma Expr.map_fst_occurrencesOf (env : Bindings) (e : Option Expr) :
    (Expr.occurrencesOf env e).map Prod.fst = Expr.tokensOf e := by
  cases e with
  | none => rfl
  | some e => exact Expr.map_fst_occurrences env e

mutual

lemma Stmt.map_fst_occurrences (inner : Bool) (env : Bindings) (s : Stmt) :
    (s.occurrences inner env).map Prod.fst = s.tokens := by
  match s with
  | .expression e => exact Expr.map_fst_occurrences env e
  | .print e => exact Expr.map_fst_occurrences env e
  | .varDecl _ e => simp [Stmt.occurrences, Stmt.tokens, Expr.map_fst_occurrencesOf]
  | .block body => exact Stmt.map_fst_occurrencesAll true env body
  | .ifElse e s none =>
    simp [Stmt.occurrences, Stmt.tokens, Expr.map_fst_occurrences,
      Stmt.map_fst_occurrences inner env s]
  | .ifElse e s (some u) =>
    simp [Stmt.occurrences, Stmt.tokens, Expr.map_fst_occurrences,
      Stmt.map_fst_occurrences inner env s, Stmt.map_fst_occurrences inner env u]
  | .loop e s =>
    simp [Stmt.occurrences, Stmt.tokens, Expr.map_fst_occurrences,
      Stmt.map_fst_occurrences inner env s]
  | .funDecl decl => exact FunctionDecl.map_fst_occurrences _ decl
  | .ret _ e => simp [Stmt.occurrences, Stmt.tokens, Expr.map_fst_occurrencesOf]
  | .classDecl _ e decls =>
    simp [Stmt.occurrences, Stmt.tokens, Expr.map_fst_occurrencesOf,
      FunctionDecl.map_fst_occurrencesAll _ decls]

lemma Stmt.map_fst_occurrencesAll (inner : Bool) (env : Bindings) (ss : List Stmt) :
    (Stmt.occurrencesAll inner env ss).map Prod.fst = Stmt.tokensAll ss := by
  match ss with
  | [] => rfl
  | s :: ss =>
    simp [Stmt.occurrencesAll, Stmt.tokensAll, Stmt.map_fst_occurrences inner env s,
      Stmt.map_fst_occurrencesAll inner _ ss]

lemma FunctionDecl.map_fst_occurrences (env : Bindings) (decl : FunctionDecl) :
    (decl.occurrences env).map Prod.fst = decl.tokens := by
  match decl with
  | ⟨_, params, body⟩ =>
    simp [FunctionDecl.occurrences, FunctionDecl.tokens, Stmt.map_fst_occurrencesAll true _ body,
      Function.comp_def]

lemma FunctionDecl.map_fst_occurrencesAll (env : Bindings) (decls : List FunctionDecl) :
    (FunctionDecl.occurrencesAll env decls).map Prod.fst = FunctionDecl.tokensAll decls := by
  match decls with
  | [] => rfl
  | decl :: decls =>
    simp [FunctionDecl.occurrencesAll, FunctionDecl.tokensAll,
      FunctionDecl.map_fst_occurrences env decl, FunctionDecl.map_fst_occurrencesAll env decls]

end

lemma Stmt.mem_tokensAll_of_occurrence {inner : Bool} {env : Bindings} {ss : List Stmt}
    {o : Token × Option Token} (h : o ∈ Stmt.occurrencesAll inner env ss) :
    o.1 ∈ Stmt.tokensAll ss := by
  rw [← Stmt.map_fst_occurrencesAll inner env]
  exact List.mem_map_of_mem h

mutual

/-- The assignments to a name in an expression. -/
def Expr.assigns (name : String) : Expr → List ExprId
  | .literal .. => []
  | .grouping _ e => e.assigns name
  | .unary _ _ _ e => e.assigns name
  | .binary _ _ _ left right => left.assigns name ++ right.assigns name
  | .logical _ _ _ left right => left.assigns name ++ right.assigns name
  | .var .. => []
  | .assign i target value =>
    (if target.lexeme = name then [i] else []) ++ value.assigns name
  | .call _ callee _ arguments => callee.assigns name ++ Expr.assignsAll name arguments
  | .get _ object _ => object.assigns name
  | .set _ object _ value => object.assigns name ++ value.assigns name
  | .this .. => []
  | .super .. => []

def Expr.assignsAll (name : String) : List Expr → List ExprId
  | [] => []
  | e :: es => e.assigns name ++ Expr.assignsAll name es

end

mutual

/-- The assignments that stand in the initializer of the variable they set. -/
def Stmt.ownAssigns : Stmt → List ExprId
  | .varDecl name (some e) => e.assigns name.lexeme
  | .block body => Stmt.ownAssignsAll body
  | .ifElse _ thenBranch none => thenBranch.ownAssigns
  | .ifElse _ thenBranch (some elseBranch) => thenBranch.ownAssigns ++ elseBranch.ownAssigns
  | .loop _ body => body.ownAssigns
  | .funDecl decl => decl.ownAssigns
  | .classDecl _ _ methods => FunctionDecl.ownAssignsAll methods
  | _ => []

def Stmt.ownAssignsAll : List Stmt → List ExprId
  | [] => []
  | s :: ss => s.ownAssigns ++ Stmt.ownAssignsAll ss

def FunctionDecl.ownAssigns : FunctionDecl → List ExprId
  | ⟨_, _, body⟩ => Stmt.ownAssignsAll body

def FunctionDecl.ownAssignsAll : List FunctionDecl → List ExprId
  | [] => []
  | decl :: decls => decl.ownAssigns ++ FunctionDecl.ownAssignsAll decls

end

end GermanLox
