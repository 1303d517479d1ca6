import GermanLox.Proofs.Reading.Contents
import GermanLox.Scope.Resolver

/-!
# What a walk over a program leaves alone

A walk that ends without a fault had none before, and it records distances only for the expressions
that it meets.
-/

namespace GermanLox
namespace Resolver

/-- The function and the class that a walk is in. -/
def context (r : Resolver) : FunctionContext × ClassContext :=
  (r.functionContext, r.classContext)

section Fields

variable (r : Resolver) (name : String) (ready : Bool) (t : Token) (i : ExprId)

@[simp] lemma enter_diagnostics : (r.enter name ready).diagnostics = r.diagnostics := by
  unfold enter
  split <;> rfl

@[simp] lemma enter_distances : (r.enter name ready).distances = r.distances := by
  unfold enter
  split <;> rfl

@[simp] lemma enter_context : (r.enter name ready).context = r.context := by
  unfold enter
  split <;> rfl

@[simp] lemma declare_context : (r.declare t).context = r.context := by
  unfold declare
  split
  · exact enter_context r t.lexeme false
  · exact enter_context r t.lexeme false

@[simp] lemma define_context : (r.define t).context = r.context :=
  enter_context r _ _

@[simp] lemma declare_distances : (r.declare t).distances = r.distances := by
  unfold declare
  split <;> simp [note]

@[simp] lemma define_diagnostics : (r.define t).diagnostics = r.diagnostics :=
  enter_diagnostics r _ _

@[simp] lemma define_distances : (r.define t).distances = r.distances :=
  enter_distances r _ _

@[simp] lemma bind_diagnostics : (r.bind i name).diagnostics = r.diagnostics := by
  unfold bind
  split <;> rfl

@[simp] lemma bind_scopes : (r.bind i name).scopes = r.scopes := by
  unfold bind
  split <;> rfl

@[simp] lemma bind_context : (r.bind i name).context = r.context := by
  unfold bind
  split <;> rfl

/-- Only the expression itself gets a distance. -/
lemma bind_distances_of_ne {j : ExprId} (h : j ≠ i) :
    (r.bind i name).distances[j]? = r.distances[j]? := by
  unfold bind
  split
  · rfl
  · rw [Std.TreeMap.getElem?_insert, if_neg]
    simpa using Ne.symm h

/-- Checking a return can only add to the diagnostics. -/
lemma exists_checkReturn_eq (hasValue : Bool) :
    ∃ ds, r.checkReturn t hasValue = { r with diagnostics := ds } := by
  unfold checkReturn
  split
  · exact ⟨_, rfl⟩
  · split
    · exact ⟨_, rfl⟩
    · exact ⟨r.diagnostics, rfl⟩
  · exact ⟨r.diagnostics, rfl⟩
  · exact ⟨r.diagnostics, rfl⟩

/-- Checking a superclass can only add to the diagnostics. -/
lemma exists_checkSuperclass_eq (e : Expr) :
    ∃ ds, r.checkSuperclass t e = { r with diagnostics := ds } := by
  unfold checkSuperclass
  split
  · split
    · exact ⟨_, rfl⟩
    · exact ⟨r.diagnostics, rfl⟩
  · exact ⟨r.diagnostics, rfl⟩

lemma note_diagnostics_ne (cause : ScopeFault) : (r.note t cause).diagnostics ≠ [] := by
  simp [note]

end Fields

section Clean

variable {r : Resolver}

/-- A name that is declared without a fault was not in its scope. -/
lemma clean_of_declare {t : Token} (h : (r.declare t).diagnostics = []) :
    r.diagnostics = [] ∧ r.isDeclared t.lexeme = false := by
  unfold declare at h
  split at h
  · exact absurd h (note_diagnostics_ne _ _ _)
  · rename_i hdeclared
    exact ⟨by simpa using h, by simpa using hdeclared⟩

mutual

lemma clean_of_expr (e : Expr) {r : Resolver} (h : (expr e r).diagnostics = []) :
    r.diagnostics = [] := by
  match e with
  | .literal .. => exact h
  | .grouping _ e => exact clean_of_expr e h
  | .unary _ _ _ e => exact clean_of_expr e h
  | .binary _ _ _ left right => exact clean_of_expr left (clean_of_expr right h)
  | .logical _ _ _ left right => exact clean_of_expr left (clean_of_expr right h)
  | .var id name =>
    rw [expr, bind_diagnostics] at h
    split at h
    · exact absurd h (note_diagnostics_ne _ _ _)
    · exact h
  | .assign id name value =>
    rw [expr, bind_diagnostics] at h
    exact clean_of_expr value h
  | .call _ callee _ arguments => exact clean_of_expr callee (clean_of_exprs arguments h)
  | .get _ object _ => exact clean_of_expr object h
  | .set _ object _ value => exact clean_of_expr value (clean_of_expr object h)
  | .this id keyword =>
    rw [expr] at h
    split at h
    · exact absurd h (note_diagnostics_ne _ _ _)
    · simpa using h
    · simpa using h
  | .super id keyword _ =>
    rw [expr, bind_diagnostics] at h
    split at h
    · exact absurd h (note_diagnostics_ne _ _ _)
    · exact absurd h (note_diagnostics_ne _ _ _)
    · exact h

lemma clean_of_exprs (es : List Expr) {r : Resolver} (h : (exprs es r).diagnostics = []) :
    r.diagnostics = [] := by
  match es with
  | [] => exact h
  | e :: es => exact clean_of_expr e (clean_of_exprs es h)

end

lemma clean_of_optionalExpr (e : Option Expr) (h : (optionalExpr e r).diagnostics = []) :
    r.diagnostics = [] := by
  cases e with
  | none => exact h
  | some e => exact clean_of_expr e h

lemma clean_of_parameters (params : List Token) (h : (r.parameters params).diagnostics = []) :
    r.diagnostics = [] := by
  induction params generalizing r with
  | nil => exact h
  | cons t params ih =>
    have hfirst := ih h
    rw [define_diagnostics] at hfirst
    exact (clean_of_declare hfirst).1

lemma clean_of_checkReturn {t : Token} {hasValue : Bool}
    (h : (r.checkReturn t hasValue).diagnostics = []) :
    r.diagnostics = [] ∧ r.functionContext ≠ .outside ∧ r.checkReturn t hasValue = r := by
  unfold checkReturn at h ⊢
  split at h
  · exact absurd h (note_diagnostics_ne _ _ _)
  · rename_i hcontext
    split at h
    · exact absurd h (note_diagnostics_ne _ _ _)
    · rename_i hvalue
      exact ⟨h, by simp [hcontext], by simp [hvalue]⟩
  · rename_i hcontext
    exact ⟨h, by simp [hcontext], rfl⟩
  · rename_i hcontext
    exact ⟨h, by simp [hcontext], rfl⟩

/-- A return that is allowed in a function is allowed in all functions of the kind. -/
lemma checkReturn_of_clean {r' : Resolver} {t t' : Token} {hasValue hasValue' : Bool}
    (hcontext : r'.functionContext = r.functionContext) (hvalue : hasValue' = hasValue)
    (h : (r.checkReturn t hasValue).diagnostics = []) : r'.checkReturn t' hasValue' = r' := by
  unfold checkReturn at h ⊢
  rw [hcontext, hvalue]
  split at h
  · exact absurd h (note_diagnostics_ne _ _ _)
  · split at h
    · exact absurd h (note_diagnostics_ne _ _ _)
    · rename_i hnot
      rw [if_neg hnot]
  · rfl
  · rfl

lemma clean_of_checkSuperclass {name : Token} {e : Expr}
    (h : (r.checkSuperclass name e).diagnostics = []) :
    r.diagnostics = [] ∧ r.checkSuperclass name e = r := by
  unfold checkSuperclass at h ⊢
  split at h
  · split at h
    · exact absurd h (note_diagnostics_ne _ _ _)
    · rename_i hne
      exact ⟨h, by simp [hne]⟩
  · exact ⟨h, rfl⟩

lemma clean_of_openSuperclass {name : Token} {e : Option Expr}
    (h : (r.openSuperclass name e).diagnostics = []) : r.diagnostics = [] := by
  cases e with
  | none => exact h
  | some e =>
    rw [openSuperclass, enter_diagnostics] at h
    have hchecked := clean_of_expr e h
    exact (clean_of_checkSuperclass hchecked).1

lemma closeSuperclass_diagnostics (e : Option Expr) :
    (r.closeSuperclass e).diagnostics = r.diagnostics := by
  cases e <;> rfl

mutual

lemma clean_of_stmt (s : Stmt) {r : Resolver} (h : (stmt s r).diagnostics = []) :
    r.diagnostics = [] := by
  match s with
  | .expression e => exact clean_of_expr e h
  | .print e => exact clean_of_expr e h
  | .varDecl name initializer =>
    rw [stmt, define_diagnostics] at h
    exact (clean_of_declare (clean_of_optionalExpr _ h)).1
  | .block body =>
    have hopened : r.openScope.diagnostics = [] := clean_of_stmts body h
    exact hopened
  | .ifElse condition thenBranch none => exact clean_of_expr condition (clean_of_stmt thenBranch h)
  | .ifElse condition thenBranch (some elseBranch) =>
    exact clean_of_expr condition (clean_of_stmt thenBranch (clean_of_stmt elseBranch h))
  | .loop condition body => exact clean_of_expr condition (clean_of_stmt body h)
  | .funDecl decl =>
    have hdefined := clean_of_function .function decl h
    rw [define_diagnostics] at hdefined
    exact (clean_of_declare hdefined).1
  | .ret keyword value => exact (clean_of_checkReturn (clean_of_optionalExpr _ h)).1
  | .classDecl name superclass methods =>
    simp only [stmt, closeSuperclass_diagnostics] at h
    have hopened := clean_of_functions methods h
    rw [enter_diagnostics] at hopened
    have hdeclared := clean_of_openSuperclass hopened
    rw [define_diagnostics] at hdeclared
    exact (clean_of_declare hdeclared).1

lemma clean_of_stmts (ss : List Stmt) {r : Resolver} (h : (stmts ss r).diagnostics = []) :
    r.diagnostics = [] := by
  match ss with
  | [] => exact h
  | s :: ss => exact clean_of_stmt s (clean_of_stmts ss h)

lemma clean_of_function (context : FunctionContext) (decl : FunctionDecl) {r : Resolver}
    (h : (function context decl r).diagnostics = []) : r.diagnostics = [] := by
  match decl with
  | ⟨_, params, body⟩ =>
    have hopened : { r with functionContext := context }.openScope.diagnostics = [] :=
      clean_of_parameters params (clean_of_stmts body h)
    exact hopened

lemma clean_of_functions (decls : List FunctionDecl) {r : Resolver}
    (h : (functions decls r).diagnostics = []) : r.diagnostics = [] := by
  match decls with
  | [] => exact h
  | decl :: decls => exact clean_of_function _ decl (clean_of_functions decls h)

end

end Clean

section Contexts

mutual

lemma expr_context (e : Expr) (r : Resolver) : (expr e r).context = r.context := by
  match e with
  | .literal .. => rfl
  | .grouping _ e => exact expr_context e r
  | .unary _ _ _ e => exact expr_context e r
  | .binary _ _ _ left right => rw [expr, expr_context right, expr_context left]
  | .logical _ _ _ left right => rw [expr, expr_context right, expr_context left]
  | .var id name =>
    rw [expr, bind_context]
    split <;> rfl
  | .assign id name value => rw [expr, bind_context, expr_context value]
  | .call _ callee _ arguments => rw [expr, exprs_context arguments, expr_context callee]
  | .get _ object _ => exact expr_context object r
  | .set _ object _ value => rw [expr, expr_context object, expr_context value]
  | .this id keyword =>
    rw [expr]
    split
    · rfl
    · exact bind_context _ _ _
    · exact bind_context _ _ _
  | .super id keyword _ =>
    rw [expr, bind_context]
    split <;> rfl

lemma exprs_context (es : List Expr) (r : Resolver) : (exprs es r).context = r.context := by
  match es with
  | [] => rfl
  | e :: es => rw [exprs, exprs_context es, expr_context e]

end

lemma optionalExpr_context (e : Option Expr) (r : Resolver) :
    (optionalExpr e r).context = r.context := by
  cases e with
  | none => rfl
  | some e => exact expr_context e r

lemma parameters_context (params : List Token) (r : Resolver) :
    (r.parameters params).context = r.context := by
  induction params generalizing r with
  | nil => rfl
  | cons t params ih =>
    refine (ih _).trans ?_
    rw [define_context, declare_context]

lemma checkReturn_context (t : Token) (hasValue : Bool) (r : Resolver) :
    (r.checkReturn t hasValue).context = r.context := by
  obtain ⟨ds, hchecked⟩ := exists_checkReturn_eq r t hasValue
  rw [hchecked]
  rfl

/-- Inside of a class the class is another one, the function is not. -/
lemma openSuperclass_context (name : Token) (e : Expr) (r : Resolver) :
    (r.openSuperclass name (some e)).context = (r.functionContext, .derived) := by
  have hresolved := expr_context e { r.checkSuperclass name e with classContext := .derived }
  obtain ⟨ds, hchecked⟩ := exists_checkSuperclass_eq r name e
  refine (enter_context _ _ _).trans (hresolved.trans ?_)
  rw [hchecked]
  rfl

lemma openSuperclass_functionContext (name : Token) (e : Option Expr) (r : Resolver) :
    (r.openSuperclass name e).functionContext = r.functionContext := by
  cases e with
  | none => rfl
  | some e => exact congrArg Prod.fst (openSuperclass_context name e r)

mutual

lemma stmt_context (s : Stmt) (r : Resolver) : (stmt s r).context = r.context := by
  match s with
  | .expression e => exact expr_context e r
  | .print e => exact expr_context e r
  | .varDecl name initializer =>
    rw [stmt, define_context, optionalExpr_context, declare_context]
  | .block body => exact stmts_context body r.openScope
  | .ifElse condition thenBranch none => rw [stmt, stmt_context thenBranch, expr_context]
  | .ifElse condition thenBranch (some elseBranch) =>
    rw [stmt, stmt_context elseBranch, stmt_context thenBranch, expr_context]
  | .loop condition body => rw [stmt, stmt_context body, expr_context]
  | .funDecl decl => rw [stmt, function_context .function decl, define_context, declare_context]
  | .ret keyword value => rw [stmt, optionalExpr_context, checkReturn_context]
  | .classDecl name superclass methods =>
    simp only [stmt]
    refine Prod.ext ?_ rfl
    have hmethods := congrArg Prod.fst (functions_context methods
      ((((({ r with classContext := .base }.declare name).define name).openSuperclass name
        superclass).openScope).enter thisName true))
    have hclosed : ∀ q : Resolver, (q.closeSuperclass superclass).functionContext =
        q.functionContext := by
      intro q
      cases superclass <;> rfl
    refine (hclosed _).trans (hmethods.trans ((congrArg Prod.fst (enter_context _ _ _)).trans ?_))
    refine (openSuperclass_functionContext name superclass _).trans ?_
    exact congrArg Prod.fst ((define_context _ _).trans (declare_context _ _))

lemma stmts_context (ss : List Stmt) (r : Resolver) : (stmts ss r).context = r.context := by
  match ss with
  | [] => rfl
  | s :: ss => rw [stmts, stmts_context ss, stmt_context s]

lemma function_context (context : FunctionContext) (decl : FunctionDecl) (r : Resolver) :
    (function context decl r).context = r.context := by
  match decl with
  | ⟨name, params, body⟩ =>
    have hbody := (stmts_context body _).trans
      (parameters_context params { r with functionContext := context }.openScope)
    have hclass : (function context ⟨name, params, body⟩ r).classContext = r.classContext :=
      congrArg Prod.snd hbody
    exact Prod.ext rfl hclass

lemma functions_context (decls : List FunctionDecl) (r : Resolver) :
    (functions decls r).context = r.context := by
  match decls with
  | [] => rfl
  | decl :: decls => rw [functions, functions_context decls, function_context _ decl]

end

end Contexts

section Distances

variable {r : Resolver} {i : ExprId}

mutual

lemma expr_distances (e : Expr) {r : Resolver} (h : i ∉ e.numbers) :
    (expr e r).distances[i]? = r.distances[i]? := by
  match e with
  | .literal .. => rfl
  | .grouping _ e => exact expr_distances e (List.not_mem_of_not_mem_cons h)
  | .unary _ _ _ e => exact expr_distances e (List.not_mem_of_not_mem_cons h)
  | .binary _ _ _ left right =>
    simp only [Expr.numbers, List.mem_cons, List.mem_append, not_or] at h
    rw [expr, expr_distances right h.2.2, expr_distances left h.2.1]
  | .logical _ _ _ left right =>
    simp only [Expr.numbers, List.mem_cons, List.mem_append, not_or] at h
    rw [expr, expr_distances right h.2.2, expr_distances left h.2.1]
  | .var id name =>
    rw [expr, bind_distances_of_ne _ _ _ (List.ne_of_not_mem_cons h)]
    split <;> rfl
  | .assign id name value =>
    simp only [Expr.numbers, List.mem_cons, not_or] at h
    rw [expr, bind_distances_of_ne _ _ _ h.1, expr_distances value h.2]
  | .call _ callee _ arguments =>
    simp only [Expr.numbers, List.mem_cons, List.mem_append, not_or] at h
    rw [expr, exprs_distances arguments h.2.2, expr_distances callee h.2.1]
  | .get _ object _ => exact expr_distances object (List.not_mem_of_not_mem_cons h)
  | .set _ object _ value =>
    simp only [Expr.numbers, List.mem_cons, List.mem_append, not_or] at h
    rw [expr, expr_distances object h.2.1, expr_distances value h.2.2]
  | .this id keyword =>
    rw [expr]
    split
    · rfl
    · exact bind_distances_of_ne _ _ _ (List.ne_of_not_mem_cons h)
    · exact bind_distances_of_ne _ _ _ (List.ne_of_not_mem_cons h)
  | .super id keyword _ =>
    rw [expr, bind_distances_of_ne _ _ _ (List.ne_of_not_mem_cons h)]
    split <;> rfl

lemma exprs_distances (es : List Expr) {r : Resolver} (h : i ∉ Expr.numbersAll es) :
    (exprs es r).distances[i]? = r.distances[i]? := by
  match es with
  | [] => rfl
  | e :: es =>
    simp only [Expr.numbersAll, List.mem_append, not_or] at h
    rw [exprs, exprs_distances es h.2, expr_distances e h.1]

end

lemma optionalExpr_distances (e : Option Expr) (h : i ∉ Expr.numbersOf e) :
    (optionalExpr e r).distances[i]? = r.distances[i]? := by
  cases e with
  | none => rfl
  | some e => exact expr_distances e h

lemma parameters_distances (params : List Token) :
    (r.parameters params).distances = r.distances := by
  induction params generalizing r with
  | nil => rfl
  | cons t params ih =>
    refine ih.trans ?_
    rw [define_distances, declare_distances]

lemma checkReturn_distances (t : Token) (hasValue : Bool) :
    (r.checkReturn t hasValue).distances = r.distances := by
  obtain ⟨ds, hchecked⟩ := exists_checkReturn_eq r t hasValue
  rw [hchecked]

lemma openSuperclass_distances (name : Token) (e : Option Expr) (h : i ∉ Expr.numbersOf e) :
    (r.openSuperclass name e).distances[i]? = r.distances[i]? := by
  cases e with
  | none => rfl
  | some e =>
    rw [openSuperclass, enter_distances]
    obtain ⟨ds, hchecked⟩ := exists_checkSuperclass_eq r name e
    refine (expr_distances e h).trans ?_
    rw [hchecked]

lemma closeSuperclass_distances (e : Option Expr) :
    (r.closeSuperclass e).distances = r.distances := by
  cases e <;> rfl

mutual

lemma stmt_distances (s : Stmt) {r : Resolver} (h : i ∉ s.numbers) :
    (stmt s r).distances[i]? = r.distances[i]? := by
  match s with
  | .expression e => exact expr_distances e h
  | .print e => exact expr_distances e h
  | .varDecl name initializer =>
    rw [stmt, define_distances, optionalExpr_distances initializer h, declare_distances]
  | .block body => exact stmts_distances body h
  | .ifElse condition thenBranch none =>
    simp only [Stmt.numbers, List.mem_append, not_or] at h
    rw [stmt, stmt_distances thenBranch h.2, expr_distances condition h.1]
  | .ifElse condition thenBranch (some elseBranch) =>
    simp only [Stmt.numbers, List.mem_append, not_or] at h
    rw [stmt, stmt_distances elseBranch h.2.2, stmt_distances thenBranch h.2.1,
      expr_distances condition h.1]
  | .loop condition body =>
    simp only [Stmt.numbers, List.mem_append, not_or] at h
    rw [stmt, stmt_distances body h.2, expr_distances condition h.1]
  | .funDecl decl =>
    rw [stmt, function_distances .function decl h, define_distances, declare_distances]
  | .ret keyword value =>
    rw [stmt, optionalExpr_distances value h, checkReturn_distances]
  | .classDecl name superclass methods =>
    simp only [Stmt.numbers, List.mem_append, not_or] at h
    simp only [stmt, closeSuperclass_distances]
    refine (functions_distances methods h.2).trans ?_
    rw [enter_distances]
    refine (openSuperclass_distances name superclass h.1).trans ?_
    rw [define_distances, declare_distances]

lemma stmts_distances (ss : List Stmt) {r : Resolver} (h : i ∉ Stmt.numbersAll ss) :
    (stmts ss r).distances[i]? = r.distances[i]? := by
  match ss with
  | [] => rfl
  | s :: ss =>
    simp only [Stmt.numbersAll, List.mem_append, not_or] at h
    rw [stmts, stmts_distances ss h.2, stmt_distances s h.1]

lemma function_distances (context : FunctionContext) (decl : FunctionDecl) {r : Resolver}
    (h : i ∉ decl.numbers) : (function context decl r).distances[i]? = r.distances[i]? := by
  match decl with
  | ⟨_, params, body⟩ =>
    refine (stmts_distances body h).trans ?_
    rw [parameters_distances]
    rfl

lemma functions_distances (decls : List FunctionDecl) {r : Resolver}
    (h : i ∉ FunctionDecl.numbersAll decls) :
    (functions decls r).distances[i]? = r.distances[i]? := by
  match decls with
  | [] => rfl
  | decl :: decls =>
    simp only [FunctionDecl.numbersAll, List.mem_append, not_or] at h
    rw [functions, functions_distances decls h.2, function_distances _ decl h.1]

end

end Distances

end Resolver

/-- A program is accepted exactly if its walk finds no fault. -/
lemma resolve_eq_ok_iff {program : List Stmt} {distances : Distances} :
    resolve program = .ok distances ↔
      (Resolver.stmts program {}).diagnostics = [] ∧
        (Resolver.stmts program {}).distances = distances := by
  unfold resolve Resolver.resolve
  cases h : (Resolver.stmts program {}).diagnostics with
  | nil => simp [h]
  | cons => simp [h]

/-- It is rejected with the faults that its walk finds. -/
lemma resolve_eq_error_iff {program : List Stmt} {diagnostics : List Diagnostic} :
    resolve program = .error diagnostics ↔
      (Resolver.stmts program {}).diagnostics = diagnostics ∧ diagnostics ≠ [] := by
  unfold resolve Resolver.resolve
  cases h : (Resolver.stmts program {}).diagnostics with
  | nil => simp [h, eq_comm]
  | cons =>
    simp only [h, List.isEmpty_cons, Bool.false_eq_true, if_false, Except.error.injEq]
    constructor
    · rintro rfl
      exact ⟨rfl, List.cons_ne_nil _ _⟩
    · exact fun hboth => hboth.1

end GermanLox
