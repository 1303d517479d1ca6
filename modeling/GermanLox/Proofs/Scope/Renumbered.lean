import GermanLox.Proofs.Relabel
import GermanLox.Proofs.Scope.Walk

/-!
# Numbers do not count

A walk over a program writes down distances under the numbers of expressions, but it never looks at
a number or at what it has written. So a walk over the same program with other numbers, that starts
with another table, comes by the same scopes and finds the same faults; and if the other numbers are
different from each other, it adds the same distances to its table.
-/

namespace GermanLox
namespace Resolver

variable {number : ExprId → ExprId} {base : Distances} {r r' : Resolver}

/-- Walks over a program and over the program with other numbers, where the second one started with
a table of its own. -/
structure Parallel (number : ExprId → ExprId) (base : Distances) (r r' : Resolver) : Prop where
  scopes : r'.scopes = r.scopes
  functionContext : r'.functionContext = r.functionContext
  classContext : r'.classContext = r.classContext
  diagnostics : r'.diagnostics = r.diagnostics
  distances : ∀ i : ExprId, r'.distances[number i]? = r.distances[i]?.or base[number i]?

namespace Parallel

lemma note (h : Parallel number base r r') (t : Token) (cause : ScopeFault) :
    Parallel number base (r.note t cause) (r'.note t cause) :=
  ⟨h.scopes, h.functionContext, h.classContext, congrArg (· ++ _) h.diagnostics, h.distances⟩

lemma openScope (h : Parallel number base r r') : Parallel number base r.openScope r'.openScope :=
  ⟨congrArg (List.cons _) h.scopes, h.functionContext, h.classContext, h.diagnostics,
    h.distances⟩

lemma closeScope (h : Parallel number base r r') :
    Parallel number base r.closeScope r'.closeScope :=
  ⟨congrArg List.tail h.scopes, h.functionContext, h.classContext, h.diagnostics, h.distances⟩

lemma inFunction (h : Parallel number base r r') (context : FunctionContext) :
    Parallel number base { r with functionContext := context }
      { r' with functionContext := context } :=
  ⟨h.scopes, rfl, h.classContext, h.diagnostics, h.distances⟩

lemma inClass (h : Parallel number base r r') (context : ClassContext) :
    Parallel number base { r with classContext := context } { r' with classContext := context } :=
  ⟨h.scopes, h.functionContext, rfl, h.diagnostics, h.distances⟩

lemma enter (h : Parallel number base r r') (name : String) (ready : Bool) :
    Parallel number base (r.enter name ready) (r'.enter name ready) := by
  rw [Resolver.enter, Resolver.enter, h.scopes]
  cases r.scopes with
  | nil => exact h
  | cons => exact ⟨rfl, h.functionContext, h.classContext, h.diagnostics, h.distances⟩

lemma isDeclared_eq (h : Parallel number base r r') (name : String) :
    r'.isDeclared name = r.isDeclared name := by
  rw [Resolver.isDeclared, Resolver.isDeclared, h.scopes]

lemma isInitializing_eq (h : Parallel number base r r') (name : String) :
    r'.isInitializing name = r.isInitializing name := by
  rw [Resolver.isInitializing, Resolver.isInitializing, h.scopes]

lemma declare (h : Parallel number base r r') (t : Token) :
    Parallel number base (r.declare t) (r'.declare t) := by
  simp only [Resolver.declare, h.isDeclared_eq]
  split
  · exact (h.enter _ _).note _ _
  · exact h.enter _ _

lemma define (h : Parallel number base r r') (t : Token) :
    Parallel number base (r.define t) (r'.define t) :=
  h.enter _ _

/-- The same distance is written down, under the other number. -/
lemma bind (h : Parallel number base r r') (hnumber : Function.Injective number) (i : ExprId)
    (name : String) : Parallel number base (r.bind i name) (r'.bind (number i) name) := by
  rw [Resolver.bind, Resolver.bind, h.scopes]
  cases r.scopes.findIdx? (·.contains name) with
  | none => exact h
  | some d =>
    refine ⟨rfl, h.functionContext, h.classContext, h.diagnostics, fun j => ?_⟩
    simp only [Std.TreeMap.getElem?_insert, Std.LawfulEqCmp.compare_eq_iff_eq, hnumber.eq_iff]
    by_cases hij : i = j
    · simp [hij]
    · simp [hij, h.distances]

lemma parameters (h : Parallel number base r r') (params : List Token) :
    Parallel number base (r.parameters params) (r'.parameters params) := by
  induction params generalizing r r' with
  | nil => exact h
  | cons t params ih => exact ih ((h.declare t).define t)

lemma checkReturn (h : Parallel number base r r') (t : Token) (hasValue : Bool) :
    Parallel number base (r.checkReturn t hasValue) (r'.checkReturn t hasValue) := by
  rw [Resolver.checkReturn, Resolver.checkReturn, h.functionContext]
  cases r.functionContext with
  | outside => exact h.note _ _
  | initializer =>
    cases hasValue with
    | true => exact h.note _ _
    | false => exact h
  | function => exact h
  | method => exact h

lemma checkSuperclass (h : Parallel number base r r') (name : Token) (e : Expr) :
    Parallel number base (r.checkSuperclass name e)
      (r'.checkSuperclass name (e.relabel number fun t => t)) := by
  cases e with
  | var i parent =>
    simp only [Resolver.checkSuperclass, Expr.relabel]
    split
    · exact h.note _ _
    · exact h
  | _ => exact h

lemma closeSuperclass (h : Parallel number base r r') (e : Option Expr) :
    Parallel number base (r.closeSuperclass e)
      (r'.closeSuperclass (e.map (Expr.relabel number fun t => t))) := by
  cases e with
  | none => exact h
  | some e => exact h.closeScope

end Parallel

mutual

lemma expr_parallel (hnumber : Function.Injective number) (e : Expr)
    {r r' : Resolver} (h : Parallel number base r r') :
    Parallel number base (expr e r) (expr (e.relabel number fun t => t) r') := by
  match e with
  | .literal .. => exact h
  | .grouping _ e => exact expr_parallel hnumber e h
  | .unary _ _ _ e => exact expr_parallel hnumber e h
  | .binary _ _ _ left right => exact expr_parallel hnumber right (expr_parallel hnumber left h)
  | .logical _ _ _ left right => exact expr_parallel hnumber right (expr_parallel hnumber left h)
  | .var id name =>
    simp only [Expr.relabel, expr, h.isInitializing_eq]
    split
    · exact (h.note _ _).bind hnumber _ _
    · exact h.bind hnumber _ _
  | .assign id name value => exact (expr_parallel hnumber value h).bind hnumber _ _
  | .call _ callee _ arguments =>
    exact exprs_parallel hnumber arguments (expr_parallel hnumber callee h)
  | .get _ object _ => exact expr_parallel hnumber object h
  | .set _ object _ value => exact expr_parallel hnumber object (expr_parallel hnumber value h)
  | .this id keyword =>
    simp only [Expr.relabel, expr, h.classContext]
    split
    · exact h.note _ _
    · exact h.bind hnumber _ _
    · exact h.bind hnumber _ _
  | .super id keyword _ =>
    simp only [Expr.relabel, expr, h.classContext]
    split
    · exact (h.note _ _).bind hnumber _ _
    · exact (h.note _ _).bind hnumber _ _
    · exact h.bind hnumber _ _

lemma exprs_parallel (hnumber : Function.Injective number) (es : List Expr)
    {r r' : Resolver} (h : Parallel number base r r') :
    Parallel number base (exprs es r) (exprs (Expr.relabelAll number (fun t => t) es) r') := by
  match es with
  | [] => exact h
  | e :: es => exact exprs_parallel hnumber es (expr_parallel hnumber e h)

end

lemma optionalExpr_parallel (hnumber : Function.Injective number) (e : Option Expr)
    (h : Parallel number base r r') :
    Parallel number base (optionalExpr e r)
      (optionalExpr (e.map (Expr.relabel number fun t => t)) r') := by
  cases e with
  | none => exact h
  | some e => exact expr_parallel hnumber e h

lemma openSuperclass_parallel (hnumber : Function.Injective number) (name : Token)
    (e : Option Expr) (h : Parallel number base r r') :
    Parallel number base (r.openSuperclass name e)
      (r'.openSuperclass name (e.map (Expr.relabel number fun t => t))) := by
  cases e with
  | none => exact h
  | some e =>
    have hresolved := expr_parallel hnumber e ((h.checkSuperclass name e).inClass .derived)
    exact hresolved.openScope.enter _ _

mutual

lemma stmt_parallel (hnumber : Function.Injective number) (s : Stmt)
    {r r' : Resolver} (h : Parallel number base r r') :
    Parallel number base (stmt s r) (stmt (s.relabel number fun t => t) r') := by
  match s with
  | .expression e => exact expr_parallel hnumber e h
  | .print e => exact expr_parallel hnumber e h
  | .varDecl name initializer =>
    exact (optionalExpr_parallel hnumber initializer (h.declare name)).define name
  | .block body => exact (stmts_parallel hnumber body h.openScope).closeScope
  | .ifElse condition thenBranch none =>
    exact stmt_parallel hnumber thenBranch (expr_parallel hnumber condition h)
  | .ifElse condition thenBranch (some elseBranch) =>
    have hthen := stmt_parallel hnumber thenBranch (expr_parallel hnumber condition h)
    exact stmt_parallel hnumber elseBranch hthen
  | .loop condition body => exact stmt_parallel hnumber body (expr_parallel hnumber condition h)
  | .funDecl ⟨name, params, body⟩ =>
    have hdeclared := (h.declare name).define name
    exact function_parallel hnumber .function ⟨name, params, body⟩ hdeclared
  | .ret keyword value =>
    have hchecked := h.checkReturn keyword value.isSome
    simp only [Stmt.relabel, stmt, Option.isSome_map]
    exact optionalExpr_parallel hnumber value hchecked
  | .classDecl name superclass methods =>
    have hdeclared := ((h.inClass .base).declare name).define name
    have hinside := (openSuperclass_parallel hnumber name superclass hdeclared).openScope.enter
      thisName true
    have hmethods := functions_parallel hnumber methods hinside
    simp only [Stmt.relabel, stmt, h.classContext]
    exact (hmethods.closeScope.closeSuperclass superclass).inClass r.classContext

lemma stmts_parallel (hnumber : Function.Injective number) (ss : List Stmt)
    {r r' : Resolver} (h : Parallel number base r r') :
    Parallel number base (stmts ss r) (stmts (Stmt.relabelAll number (fun t => t) ss) r') := by
  match ss with
  | [] => exact h
  | s :: ss => exact stmts_parallel hnumber ss (stmt_parallel hnumber s h)

lemma function_parallel (hnumber : Function.Injective number) (context : FunctionContext)
    (decl : FunctionDecl) {r r' : Resolver} (h : Parallel number base r r') :
    Parallel number base (function context decl r)
      (function context (decl.relabel number fun t => t) r') := by
  match decl with
  | ⟨name, params, body⟩ =>
    have hinside := (h.inFunction context).openScope.parameters params
    simp only [FunctionDecl.relabel, List.map_id', function, h.functionContext]
    exact (stmts_parallel hnumber body hinside).closeScope.inFunction r.functionContext

lemma functions_parallel (hnumber : Function.Injective number) (decls : List FunctionDecl)
    {r r' : Resolver} (h : Parallel number base r r') :
    Parallel number base (functions decls r)
      (functions (FunctionDecl.relabelAll number (fun t => t) decls) r') := by
  match decls with
  | [] => exact h
  | ⟨name, params, body⟩ :: decls =>
    exact functions_parallel hnumber decls (function_parallel hnumber _ ⟨name, params, body⟩ h)

end

/-- A program is accepted whatever the numbers of its expressions are, and its distances move along
with the numbers. -/
theorem resolve_relabel (hnumber : Function.Injective number) (program : List Stmt) :
    (Resolver.stmts (Stmt.relabelAll number (fun t => t) program) {}).diagnostics =
        (Resolver.stmts program {}).diagnostics ∧
      ∀ i : ExprId,
        (Resolver.stmts (Stmt.relabelAll number (fun t => t) program) {}).distances[number i]? =
          (Resolver.stmts program {}).distances[i]? := by
  have hstart : Parallel number {} ({} : Resolver) {} := ⟨rfl, rfl, rfl, rfl, fun i => by simp⟩
  have hwalk := stmts_parallel hnumber program hstart
  refine ⟨hwalk.diagnostics, fun i => ?_⟩
  rw [hwalk.distances]
  simp

end Resolver
end GermanLox
