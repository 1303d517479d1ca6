import GermanLox.Proofs.Scope.Formed
import GermanLox.Proofs.Scope.Walk

/-!
# Names of a scope

A walk leaves all scopes but the innermost one alone, and that one takes the names that are declared
where it is open. Without a fault these are different from each other.
-/

namespace GermanLox
namespace Resolver

section Scopes

mutual

lemma expr_scopes (e : Expr) (r : Resolver) : (expr e r).scopes = r.scopes := by
  match e with
  | .literal .. => rfl
  | .grouping _ e => exact expr_scopes e r
  | .unary _ _ _ e => exact expr_scopes e r
  | .binary _ _ _ left right => rw [expr, expr_scopes right, expr_scopes left]
  | .logical _ _ _ left right => rw [expr, expr_scopes right, expr_scopes left]
  | .var id name =>
    rw [expr, bind_scopes]
    split <;> rfl
  | .assign id name value => rw [expr, bind_scopes, expr_scopes value]
  | .call _ callee _ arguments => rw [expr, exprs_scopes arguments, expr_scopes callee]
  | .get _ object _ => exact expr_scopes object r
  | .set _ object _ value => rw [expr, expr_scopes object, expr_scopes value]
  | .this id keyword =>
    rw [expr]
    split
    · rfl
    · rw [bind_scopes]
    · rw [bind_scopes]
  | .super id keyword _ =>
    rw [expr, bind_scopes]
    split <;> rfl

lemma exprs_scopes (es : List Expr) (r : Resolver) : (exprs es r).scopes = r.scopes := by
  match es with
  | [] => rfl
  | e :: es => rw [exprs, exprs_scopes es, expr_scopes e]

end

lemma optionalExpr_scopes (e : Option Expr) (r : Resolver) :
    (optionalExpr e r).scopes = r.scopes := by
  cases e with
  | none => rfl
  | some e => exact expr_scopes e r

lemma checkReturn_scopes (t : Token) (hasValue : Bool) (r : Resolver) :
    (r.checkReturn t hasValue).scopes = r.scopes := by
  obtain ⟨ds, hchecked⟩ := exists_checkReturn_eq r t hasValue
  rw [hchecked]

lemma checkSuperclass_scopes (name : Token) (e : Expr) (r : Resolver) :
    (r.checkSuperclass name e).scopes = r.scopes := by
  obtain ⟨ds, hchecked⟩ := exists_checkSuperclass_eq r name e
  rw [hchecked]

lemma enter_scopes_congr {r r' : Resolver} (h : r'.scopes = r.scopes) (name : String)
    (ready : Bool) : (r'.enter name ready).scopes = (r.enter name ready).scopes := by
  rw [enter, enter, h]
  cases r.scopes with
  | nil => exact h
  | cons => rfl

lemma declare_scopes (r : Resolver) (t : Token) :
    (r.declare t).scopes = (r.enter t.lexeme false).scopes := by
  unfold declare
  split <;> rfl

/-- The outer scopes are the same, and the innermost one has a few more names. -/
structure Adds (names : List String) (r r' : Resolver) : Prop where
  outer : r'.scopes.tail = r.scopes.tail
  isNil : r'.scopes = [] ↔ r.scopes = []
  isDeclared : r.scopes ≠ [] → ∀ n, r'.isDeclared n = true ↔ r.isDeclared n = true ∨ n ∈ names

namespace Adds

variable {r r₁ r₂ : Resolver} {names names₁ : List String}

lemma of_scopes_eq (h : r₁.scopes = r.scopes) : Adds [] r r₁ :=
  ⟨by rw [h], by rw [h], fun _ n => by simp [Resolver.isDeclared, h]⟩

lemma trans (h : Adds names r r₁) (h₁ : Adds names₁ r₁ r₂) : Adds (names ++ names₁) r r₂ := by
  refine ⟨h₁.outer.trans h.outer, h₁.isNil.trans h.isNil, fun hne n => ?_⟩
  have hne₁ : r₁.scopes ≠ [] := fun hnil => hne (h.isNil.mp hnil)
  rw [h₁.isDeclared hne₁, h.isDeclared hne, List.mem_append, or_assoc]

/-- What is opened and closed again leaves the scopes as they were. -/
lemma closeScope (h : Adds names r.openScope r₁) : r₁.closeScope.scopes = r.scopes :=
  h.outer

lemma enter (r : Resolver) (name : String) (ready : Bool) : Adds [name] r (r.enter name ready) := by
  unfold Resolver.enter
  split
  · rename_i hnil
    exact ⟨rfl, Iff.rfl, fun hne => absurd hnil hne⟩
  · rename_i scope outer hcons
    refine ⟨by simp [hcons], by simp [hcons], fun _ n => ?_⟩
    simp only [Resolver.isDeclared, hcons, List.head?_cons, Option.any_some,
      Std.TreeMap.contains_insert, List.mem_singleton, Bool.or_eq_true, beq_iff_eq,
      Std.LawfulEqCmp.compare_eq_iff_eq]
    rw [or_comm, @eq_comm _ name n]

lemma declare (r : Resolver) (t : Token) : Adds [t.lexeme] r (r.declare t) := by
  have h := enter r t.lexeme false
  unfold Resolver.declare
  split
  · exact ⟨h.outer, h.isNil, h.isDeclared⟩
  · exact h

/-- Names may be told more than once. -/
lemma congr (h : Adds names r r₁) (hmem : ∀ n, n ∈ names₁ ↔ n ∈ names) : Adds names₁ r r₁ :=
  ⟨h.outer, h.isNil, fun hne n => by rw [h.isDeclared hne, hmem]⟩

lemma declare_define (r : Resolver) (t : Token) :
    Adds [t.lexeme] r ((r.declare t).define t) :=
  ((declare r t).trans (enter _ t.lexeme true)).congr (by simp)

lemma parameters (params : List Token) (r : Resolver) :
    Adds (params.map Token.lexeme) r (r.parameters params) := by
  induction params generalizing r with
  | nil => exact of_scopes_eq rfl
  | cons t params ih => exact (declare_define r t).trans (ih _)

end Adds

lemma closeSuperclass_openSuperclass {r r₁ : Resolver} {names : List String} (name : Token)
    (e : Option Expr) (h : Adds names ((r.openSuperclass name e).openScope) r₁) :
    (r₁.closeScope.closeSuperclass e).scopes = r.scopes := by
  have houter : r₁.closeScope.scopes = (r.openSuperclass name e).scopes := h.outer
  cases e with
  | none => exact houter
  | some e =>
    change r₁.closeScope.scopes.tail = r.scopes
    rw [houter, openSuperclass, (Adds.enter _ superName true).outer]
    change (expr e _).scopes = r.scopes
    rw [expr_scopes]
    exact checkSuperclass_scopes name e r

/-- A class declares its name; what its methods open they close. -/
lemma classDecl_scopes (name : Token) (superclass : Option Expr) (methods : List FunctionDecl)
    (r : Resolver) (hmethods : ∀ r, (functions methods r).scopes = r.scopes) :
    (stmt (.classDecl name superclass methods) r).scopes =
      ((r.declare name).define name).scopes := by
  have hinside := (Adds.enter ((({ r with classContext := .base }.declare name).define
    name).openSuperclass name superclass).openScope thisName true).trans
      (.of_scopes_eq (hmethods _))
  have hclosed := closeSuperclass_openSuperclass name superclass hinside
  refine hclosed.trans (enter_scopes_congr ?_ name.lexeme true)
  rw [declare_scopes, declare_scopes]
  have hscopes : { r with classContext := .base }.scopes = r.scopes := rfl
  exact enter_scopes_congr hscopes name.lexeme false

mutual

/-- Whatever the tree is like, a statement closes the scopes that it opens. -/
lemma exists_adds_stmt (s : Stmt) (r : Resolver) : ∃ names, Adds names r (stmt s r) := by
  match s with
  | .expression e => exact ⟨_, .of_scopes_eq (expr_scopes e r)⟩
  | .print e => exact ⟨_, .of_scopes_eq (expr_scopes e r)⟩
  | .varDecl name initializer =>
    have hinitializer := Adds.of_scopes_eq (optionalExpr_scopes initializer (r.declare name))
    exact ⟨_, ((Adds.declare r name).trans hinitializer).trans (.enter _ name.lexeme true)⟩
  | .block body =>
    obtain ⟨_, hbody⟩ := exists_adds_stmts body r.openScope
    exact ⟨_, .of_scopes_eq hbody.closeScope⟩
  | .ifElse condition thenBranch none =>
    obtain ⟨_, hthen⟩ := exists_adds_stmt thenBranch (expr condition r)
    exact ⟨_, (Adds.of_scopes_eq (expr_scopes condition r)).trans hthen⟩
  | .ifElse condition thenBranch (some elseBranch) =>
    obtain ⟨_, hthen⟩ := exists_adds_stmt thenBranch (expr condition r)
    obtain ⟨_, helse⟩ := exists_adds_stmt elseBranch (stmt thenBranch (expr condition r))
    exact ⟨_, ((Adds.of_scopes_eq (expr_scopes condition r)).trans hthen).trans helse⟩
  | .loop condition body =>
    obtain ⟨_, hbody⟩ := exists_adds_stmt body (expr condition r)
    exact ⟨_, (Adds.of_scopes_eq (expr_scopes condition r)).trans hbody⟩
  | .funDecl ⟨name, params, body⟩ =>
    have hscopes := function_scopes .function ⟨name, params, body⟩ ((r.declare name).define name)
    exact ⟨_, (Adds.declare_define r name).trans (.of_scopes_eq hscopes)⟩
  | .ret keyword value =>
    refine ⟨_, .of_scopes_eq ?_⟩
    rw [stmt, optionalExpr_scopes, checkReturn_scopes]
  | .classDecl name superclass methods =>
    have hscopes := classDecl_scopes name superclass methods r (functions_scopes methods)
    exact ⟨_, (Adds.declare_define r name).trans (.of_scopes_eq hscopes)⟩

lemma exists_adds_stmts (ss : List Stmt) (r : Resolver) : ∃ names, Adds names r (stmts ss r) := by
  match ss with
  | [] => exact ⟨_, .of_scopes_eq rfl⟩
  | s :: ss =>
    obtain ⟨_, hs⟩ := exists_adds_stmt s r
    obtain ⟨_, hss⟩ := exists_adds_stmts ss (stmt s r)
    exact ⟨_, hs.trans hss⟩

lemma function_scopes (context : FunctionContext) (decl : FunctionDecl) (r : Resolver) :
    (function context decl r).scopes = r.scopes := by
  match decl with
  | ⟨_, params, body⟩ =>
    have hparams := Adds.parameters params { r with functionContext := context }.openScope
    obtain ⟨_, hbody⟩ := exists_adds_stmts body
      ({ r with functionContext := context }.openScope.parameters params)
    exact (hparams.trans hbody).closeScope

lemma functions_scopes (decls : List FunctionDecl) (r : Resolver) :
    (functions decls r).scopes = r.scopes := by
  match decls with
  | [] => rfl
  | ⟨name, params, body⟩ :: decls =>
    rw [functions, functions_scopes decls, function_scopes _ ⟨name, params, body⟩]

end

/-- The scopes after the declaration of a name, if there is one. -/
def scopesWith (r : Resolver) : Option Token → List Scope
  | none => r.scopes
  | some t => ((r.declare t).define t).scopes

/-- A statement leaves the scopes as they are, but for the name that it declares. -/
lemma stmt_scopes (s : Stmt) (r : Resolver) (hs : s.Formed) :
    (stmt s r).scopes = r.scopesWith s.declared? := by
  match s with
  | .expression e => exact expr_scopes e r
  | .print e => exact expr_scopes e r
  | .varDecl name initializer =>
    exact enter_scopes_congr (optionalExpr_scopes initializer (r.declare name)) name.lexeme true
  | .block body =>
    obtain ⟨_, hbody⟩ := exists_adds_stmts body r.openScope
    exact hbody.closeScope
  | .ifElse condition thenBranch none =>
    obtain ⟨-, hthen, hdeclared⟩ := hs
    have hscopes := stmt_scopes thenBranch (expr condition r) hthen
    rw [hdeclared] at hscopes
    exact hscopes.trans (expr_scopes condition r)
  | .ifElse condition thenBranch (some elseBranch) =>
    obtain ⟨-, ⟨hthen, hdeclared⟩, helse, hdeclared'⟩ := hs
    have hscopes := stmt_scopes thenBranch (expr condition r) hthen
    have hscopes' := stmt_scopes elseBranch (stmt thenBranch (expr condition r)) helse
    rw [hdeclared] at hscopes
    rw [hdeclared'] at hscopes'
    exact hscopes'.trans (hscopes.trans (expr_scopes condition r))
  | .loop condition body =>
    obtain ⟨-, hbody, hdeclared⟩ := hs
    have hscopes := stmt_scopes body (expr condition r) hbody
    rw [hdeclared] at hscopes
    exact hscopes.trans (expr_scopes condition r)
  | .funDecl decl => exact function_scopes .function decl _
  | .ret keyword value =>
    rw [stmt, optionalExpr_scopes]
    exact checkReturn_scopes keyword value.isSome r
  | .classDecl name superclass methods =>
    exact classDecl_scopes name superclass methods r (functions_scopes methods)

/-- A statement adds the name that it declares. -/
lemma stmt_adds (s : Stmt) (r : Resolver) (hs : s.Formed) :
    Adds (s.declared?.toList.map Token.lexeme) r (stmt s r) := by
  have hscopes := stmt_scopes s r hs
  cases hdeclared : s.declared? with
  | none =>
    rw [hdeclared] at hscopes
    exact .of_scopes_eq hscopes
  | some t =>
    rw [hdeclared] at hscopes
    exact (Adds.declare_define r t).trans (.of_scopes_eq hscopes)

lemma stmts_adds (ss : List Stmt) (r : Resolver) (hss : Stmt.FormedAll ss) :
    Adds ((ss.filterMap Stmt.declared?).map Token.lexeme) r (stmts ss r) := by
  induction ss generalizing r with
  | nil => exact .of_scopes_eq rfl
  | cons s ss ih =>
    refine ((stmt_adds s r hss.1).trans (ih (stmt s r) hss.2)).congr fun n => ?_
    rw [← List.map_append, List.filterMap_cons]
    cases s.declared? <;> simp

end Scopes

section Distinct

variable {r : Resolver}

lemma not_isDeclared_of_clean (s : Stmt) {t : Token} (ht : s.declared? = some t)
    (h : (stmt s r).diagnostics = []) : r.isDeclared t.lexeme = false := by
  cases s with
  | varDecl name initializer =>
    cases ht
    rw [stmt, define_diagnostics] at h
    exact (clean_of_declare (clean_of_optionalExpr _ h)).2
  | funDecl decl =>
    cases ht
    have hdefined := clean_of_function .function decl h
    rw [define_diagnostics] at hdefined
    exact (clean_of_declare hdefined).2
  | classDecl name superclass methods =>
    cases ht
    simp only [stmt, closeSuperclass_diagnostics] at h
    have hopened := clean_of_functions methods h
    rw [enter_diagnostics] at hopened
    have hdeclared := clean_of_openSuperclass hopened
    rw [define_diagnostics] at hdeclared
    exact (clean_of_declare hdeclared).2
  | _ => cases ht

/-- Names that are declared without a fault are new to the scope and different from each other. -/
lemma distinct_of_clean (ss : List Stmt) (hss : Stmt.FormedAll ss) (hne : r.scopes ≠ [])
    (h : (stmts ss r).diagnostics = []) :
    (∀ t ∈ ss.filterMap Stmt.declared?, r.isDeclared t.lexeme = false) ∧
      ((ss.filterMap Stmt.declared?).map Token.lexeme).Nodup := by
  induction ss generalizing r with
  | nil => simp
  | cons s ss ih =>
    have hadds := stmt_adds s r hss.1
    have hne₁ : (stmt s r).scopes ≠ [] := fun hnil => hne (hadds.isNil.mp hnil)
    obtain ⟨hnew, hnodup⟩ := ih hss.2 hne₁ h
    have hlater : ∀ t ∈ ss.filterMap Stmt.declared?, r.isDeclared t.lexeme = false ∧
        t.lexeme ∉ s.declared?.toList.map Token.lexeme := by
      intro t ht
      have hfalse := hnew t ht
      rw [← Bool.not_eq_true, hadds.isDeclared hne, not_or, Bool.not_eq_true] at hfalse
      exact hfalse
    rw [List.filterMap_cons]
    cases hs : s.declared? with
    | none => exact ⟨fun t ht => (hlater t ht).1, hnodup⟩
    | some t =>
      have hfirst := not_isDeclared_of_clean s hs (clean_of_stmts ss h)
      simp only [hs, Option.toList_some, List.map_cons, List.map_nil, List.mem_singleton] at hlater
      constructor
      · exact List.forall_mem_cons.mpr ⟨hfirst, fun u hu => (hlater u hu).1⟩
      · rw [List.map_cons, List.nodup_cons]
        refine ⟨fun hmem => ?_, hnodup⟩
        obtain ⟨u, hu, heq⟩ := List.mem_map.mp hmem
        exact (hlater u hu).2 heq

/-- So are the parameters of a function. -/
lemma distinct_parameters (params : List Token) (hne : r.scopes ≠ [])
    (h : (r.parameters params).diagnostics = []) :
    (∀ t ∈ params, r.isDeclared t.lexeme = false) ∧ (params.map Token.lexeme).Nodup := by
  induction params generalizing r with
  | nil => simp
  | cons t params ih =>
    have hadds := Adds.declare_define r t
    have hne₁ : ((r.declare t).define t).scopes ≠ [] := fun hnil => hne (hadds.isNil.mp hnil)
    obtain ⟨hnew, hnodup⟩ := ih hne₁ h
    have hlater : ∀ u ∈ params, r.isDeclared u.lexeme = false ∧ u.lexeme ≠ t.lexeme := by
      intro u hu
      have hfalse := hnew u hu
      rw [← Bool.not_eq_true, hadds.isDeclared hne, not_or, Bool.not_eq_true] at hfalse
      exact ⟨hfalse.1, by simpa using hfalse.2⟩
    have hclean : ((r.declare t).define t).diagnostics = [] := clean_of_parameters params h
    rw [define_diagnostics] at hclean
    constructor
    · exact List.forall_mem_cons.mpr ⟨(clean_of_declare hclean).2, fun u hu => (hlater u hu).1⟩
    · rw [List.map_cons, List.nodup_cons]
      refine ⟨fun hmem => ?_, hnodup⟩
      obtain ⟨u, hu, heq⟩ := List.mem_map.mp hmem
      exact (hlater u hu).2 heq

/-- Parameters and the names of the body, which share one scope, are different from each other. -/
lemma distinct_function (params : List Token) (body : List Stmt) (hbody : Stmt.FormedAll body)
    (hne : r.scopes ≠ []) (h : (stmts body (r.parameters params)).diagnostics = []) :
    ((params ++ body.filterMap Stmt.declared?).map Token.lexeme).Nodup := by
  have hadds := Adds.parameters params r
  have hne₁ : (r.parameters params).scopes ≠ [] := fun hnil => hne (hadds.isNil.mp hnil)
  obtain ⟨hnew, hnodup⟩ := distinct_of_clean body hbody hne₁ h
  obtain ⟨-, hparams⟩ := distinct_parameters params hne (clean_of_stmts body h)
  rw [List.map_append, List.nodup_append]
  refine ⟨hparams, hnodup, ?_⟩
  rintro n hn m hm rfl
  obtain ⟨t, ht, rfl⟩ := List.mem_map.mp hm
  have hdeclared := (hadds.isDeclared hne t.lexeme).mpr (.inr hn)
  rw [hnew t ht] at hdeclared
  cases hdeclared

end Distinct

end Resolver
end GermanLox
