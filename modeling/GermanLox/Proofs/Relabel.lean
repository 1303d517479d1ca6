import GermanLox.Stmt
import Mathlib.Tactic.Common

/-!
# Relabelling trees

A tree with every expression number and every token replaced. What is left of a tree without its
numbers is the tree that the grammar speaks about.
-/

namespace GermanLox

mutual

def Expr.relabel (number : ExprId → ExprId) (token : Token → Token) : Expr → Expr
  | .literal id value => .literal (number id) value
  | .grouping id inner => .grouping (number id) (inner.relabel number token)
  | .unary id op t operand => .unary (number id) op (token t) (operand.relabel number token)
  | .binary id op t left right =>
    .binary (number id) op (token t) (left.relabel number token) (right.relabel number token)
  | .logical id op t left right =>
    .logical (number id) op (token t) (left.relabel number token) (right.relabel number token)
  | .var id name => .var (number id) (token name)
  | .assign id name value => .assign (number id) (token name) (value.relabel number token)
  | .call id callee paren arguments =>
    .call (number id) (callee.relabel number token) (token paren)
      (Expr.relabelAll number token arguments)
  | .get id object name => .get (number id) (object.relabel number token) (token name)
  | .set id object name value =>
    .set (number id) (object.relabel number token) (token name) (value.relabel number token)
  | .this id keyword => .this (number id) (token keyword)
  | .super id keyword method => .super (number id) (token keyword) (token method)

def Expr.relabelAll (number : ExprId → ExprId) (token : Token → Token) : List Expr → List Expr
  | [] => []
  | e :: es => e.relabel number token :: Expr.relabelAll number token es

end

mutual

def FunctionDecl.relabel (number : ExprId → ExprId) (token : Token → Token) :
    FunctionDecl → FunctionDecl
  | ⟨name, params, body⟩ => ⟨token name, params.map token, Stmt.relabelAll number token body⟩

def FunctionDecl.relabelAll (number : ExprId → ExprId) (token : Token → Token) :
    List FunctionDecl → List FunctionDecl
  | [] => []
  | decl :: decls => decl.relabel number token :: FunctionDecl.relabelAll number token decls

def Stmt.relabel (number : ExprId → ExprId) (token : Token → Token) : Stmt → Stmt
  | .expression e => .expression (e.relabel number token)
  | .print e => .print (e.relabel number token)
  | .varDecl name initializer =>
    .varDecl (token name) (initializer.map (Expr.relabel number token))
  | .block body => .block (Stmt.relabelAll number token body)
  | .ifElse condition thenBranch none =>
    .ifElse (condition.relabel number token) (thenBranch.relabel number token) none
  | .ifElse condition thenBranch (some elseBranch) =>
    .ifElse (condition.relabel number token) (thenBranch.relabel number token)
      (some (elseBranch.relabel number token))
  | .loop condition body => .loop (condition.relabel number token) (body.relabel number token)
  | .funDecl decl => .funDecl (decl.relabel number token)
  | .ret keyword value => .ret (token keyword) (value.map (Expr.relabel number token))
  | .classDecl name superclass methods =>
    .classDecl (token name) (superclass.map (Expr.relabel number token))
      (FunctionDecl.relabelAll number token methods)

def Stmt.relabelAll (number : ExprId → ExprId) (token : Token → Token) : List Stmt → List Stmt
  | [] => []
  | s :: ss => s.relabel number token :: Stmt.relabelAll number token ss

end

mutual

lemma Expr.relabel_id (e : Expr) : e.relabel (fun i => i) (fun t => t) = e := by
  match e with
  | .literal .. => rfl
  | .grouping _ e => simp [relabel, Expr.relabel_id e]
  | .unary _ _ _ e => simp [relabel, Expr.relabel_id e]
  | .binary _ _ _ l r => simp [relabel, Expr.relabel_id l, Expr.relabel_id r]
  | .logical _ _ _ l r => simp [relabel, Expr.relabel_id l, Expr.relabel_id r]
  | .var .. => rfl
  | .assign _ _ e => simp [relabel, Expr.relabel_id e]
  | .call _ e _ es => simp [relabel, Expr.relabel_id e, Expr.relabelAll_id es]
  | .get _ e _ => simp [relabel, Expr.relabel_id e]
  | .set _ e _ v => simp [relabel, Expr.relabel_id e, Expr.relabel_id v]
  | .this .. => rfl
  | .super .. => rfl

lemma Expr.relabelAll_id (es : List Expr) :
    Expr.relabelAll (fun i => i) (fun t => t) es = es := by
  match es with
  | [] => rfl
  | e :: es => simp [relabelAll, Expr.relabel_id e, Expr.relabelAll_id es]

end

lemma Expr.map_relabel_id (e : Option Expr) :
    e.map (Expr.relabel (fun i => i) (fun t => t)) = e := by
  cases e <;> simp [Expr.relabel_id]

mutual

lemma FunctionDecl.relabel_id (decl : FunctionDecl) :
    decl.relabel (fun i => i) (fun t => t) = decl := by
  match decl with
  | ⟨_, _, body⟩ => simp [FunctionDecl.relabel, Stmt.relabelAll_id body]

lemma FunctionDecl.relabelAll_id (decls : List FunctionDecl) :
    FunctionDecl.relabelAll (fun i => i) (fun t => t) decls = decls := by
  match decls with
  | [] => rfl
  | decl :: decls =>
    simp [FunctionDecl.relabelAll, FunctionDecl.relabel_id decl, FunctionDecl.relabelAll_id decls]

lemma Stmt.relabel_id (s : Stmt) : s.relabel (fun i => i) (fun t => t) = s := by
  match s with
  | .expression e => simp [Stmt.relabel, Expr.relabel_id]
  | .print e => simp [Stmt.relabel, Expr.relabel_id]
  | .varDecl _ e => simp [Stmt.relabel, Expr.map_relabel_id]
  | .block body => simp [Stmt.relabel, Stmt.relabelAll_id body]
  | .ifElse e s none => simp [Stmt.relabel, Expr.relabel_id, Stmt.relabel_id s]
  | .ifElse e s (some u) =>
    simp [Stmt.relabel, Expr.relabel_id, Stmt.relabel_id s, Stmt.relabel_id u]
  | .loop e s => simp [Stmt.relabel, Expr.relabel_id, Stmt.relabel_id s]
  | .funDecl decl => simp [Stmt.relabel, FunctionDecl.relabel_id decl]
  | .ret _ e => simp [Stmt.relabel, Expr.map_relabel_id]
  | .classDecl _ e decls =>
    simp [Stmt.relabel, Expr.map_relabel_id, FunctionDecl.relabelAll_id decls]

lemma Stmt.relabelAll_id (ss : List Stmt) :
    Stmt.relabelAll (fun i => i) (fun t => t) ss = ss := by
  match ss with
  | [] => rfl
  | s :: ss => simp [Stmt.relabelAll, Stmt.relabel_id s, Stmt.relabelAll_id ss]

end

/-- An expression without its numbers. -/
def Expr.unnumbered (e : Expr) : Expr :=
  e.relabel (fun _ => 0) (fun t => t)

def Expr.unnumberedAll (es : List Expr) : List Expr :=
  Expr.relabelAll (fun _ => 0) (fun t => t) es

/-- A statement without the numbers of its expressions. -/
def Stmt.unnumbered (s : Stmt) : Stmt :=
  s.relabel (fun _ => 0) (fun t => t)

def Stmt.unnumberedAll (ss : List Stmt) : List Stmt :=
  Stmt.relabelAll (fun _ => 0) (fun t => t) ss

def FunctionDecl.unnumbered (decl : FunctionDecl) : FunctionDecl :=
  decl.relabel (fun _ => 0) (fun t => t)

def FunctionDecl.unnumberedAll (decls : List FunctionDecl) : List FunctionDecl :=
  FunctionDecl.relabelAll (fun _ => 0) (fun t => t) decls

end GermanLox
