import GermanLox.Proofs.Equality
import GermanLox.Proofs.Reading.Programs
import GermanLox.Proofs.Scope.Declared
import GermanLox.Proofs.Scope.Sites
import GermanLox.Proofs.Source.Tokens

/-!
# All faults are found

A walk notes the parts of a program that break a rule, each of them once and nothing else. What it
knows at a part, in its contexts and in the innermost scope, is what the constructs around the part
say; and this holds again after every statement, whatever was noted on the way.
-/

namespace GermanLox

/-- The context of the body of a function. -/
def ScopeKind.context : ScopeKind → FunctionContext
  | block => .outside
  | function => .function
  | method name => if name.lexeme = initializerName then .initializer else .method

lemma Construct.names_past (s : Stmt) (kind : ScopeKind) (params : List Token)
    (earlier : List Stmt) :
    ((scope kind params earlier).past s).names =
      (scope kind params earlier).names ++ s.declared?.toList.map Token.lexeme := by
  cases hs : s.declared? <;> simp [past, names, hs]

namespace Surroundings

def functionContext (around : Surroundings) : FunctionContext :=
  match around.find? Construct.isRoutine with
  | some (.scope kind _ _) => kind.context
  | _ => .outside

def classContext (around : Surroundings) : ClassContext :=
  match around.find? Construct.isClass with
  | some (.classBody (some _)) => .derived
  | some _ => .base
  | none => .outside

/-- What the innermost function is, and the context that it makes. -/
lemma functionContext_cases (around : Surroundings) :
    (around.find? Construct.isRoutine = none ∧ around.functionContext = .outside) ∨
      (∃ params earlier, around.find? Construct.isRoutine = some (.scope .function params earlier) ∧
        around.functionContext = .function) ∨
      ∃ name params earlier,
        around.find? Construct.isRoutine = some (.scope (.method name) params earlier) ∧
        around.functionContext =
          if name.lexeme = initializerName then .initializer else .method := by
  rw [functionContext]
  cases hfind : around.find? Construct.isRoutine with
  | none => exact .inl ⟨rfl, rfl⟩
  | some construct =>
    have hroutine := List.find?_some hfind
    cases construct with
    | scope kind params earlier =>
      cases kind with
      | block => cases hroutine
      | function => exact .inr (.inl ⟨params, earlier, rfl, rfl⟩)
      | method name => exact .inr (.inr ⟨name, params, earlier, rfl, rfl⟩)
    | classBody => cases hroutine
    | initializer => cases hroutine

/-- What the innermost class is, and the context that it makes. -/
lemma classContext_cases (around : Surroundings) :
    (around.find? Construct.isClass = none ∧ around.classContext = .outside) ∨
      (around.find? Construct.isClass = some (.classBody none) ∧ around.classContext = .base) ∨
      ∃ superclass, around.find? Construct.isClass = some (.classBody (some superclass)) ∧
        around.classContext = .derived := by
  rw [classContext]
  cases hfind : around.find? Construct.isClass with
  | none => exact .inl ⟨rfl, rfl⟩
  | some construct =>
    have hclass := List.find?_some hfind
    cases construct with
    | classBody superclass =>
      cases superclass with
      | none => exact .inr (.inl ⟨rfl, rfl⟩)
      | some e => exact .inr (.inr ⟨e, rfl, rfl⟩)
    | scope => cases hclass
    | initializer => cases hclass

section Past

variable (s : Stmt) (around : Surroundings)

lemma functionContext_past : (around.past s).functionContext = around.functionContext := by
  match around with
  | [] => rfl
  | .scope .block .. :: outer => rfl
  | .scope .function .. :: outer => rfl
  | .scope (.method _) .. :: outer => rfl
  | .classBody _ :: outer => rfl
  | .initializer _ :: outer => rfl

lemma classContext_past : (around.past s).classContext = around.classContext := by
  match around with
  | [] => rfl
  | .scope .. :: outer => rfl
  | .classBody _ :: outer => rfl
  | .initializer _ :: outer => rfl

lemma initializes_past (n : String) : (around.past s).initializes n = around.initializes n := by
  match around with
  | [] => rfl
  | .scope .. :: outer => rfl
  | .classBody _ :: outer => rfl
  | .initializer _ :: outer => rfl

end Past

/-- A statement stands at the top level, where no scope is open, or directly in a scope. -/
def Opens : Surroundings → List Scope → Prop
  | [], scopes => scopes = []
  | .scope .. :: _, scopes => scopes ≠ []
  | _ :: _, _ => False

end Surroundings

namespace Site

/-- What is to be noted of parts of a program. -/
def reports (sites : List Site) : List Diagnostic :=
  sites.filterMap diagnostic?

@[simp] lemma reports_nil : reports [] = [] := rfl

@[simp] lemma reports_cons (site : Site) (sites : List Site) :
    reports (site :: sites) = site.diagnostic?.toList ++ reports sites := by
  rw [reports, List.filterMap_cons]
  cases site.diagnostic? <;> rfl

@[simp] lemma reports_append (sites sites' : List Site) :
    reports (sites ++ sites') = reports sites ++ reports sites' :=
  List.filterMap_append

end Site

namespace Resolver

variable {around : Surroundings} {r r' : Resolver}

lemma openScope_diagnostics (r : Resolver) : r.openScope.diagnostics = r.diagnostics := rfl

lemma closeScope_diagnostics (r : Resolver) : r.closeScope.diagnostics = r.diagnostics := rfl

section Initializing

lemma isInitializing_congr (h : r'.scopes = r.scopes) (n : String) :
    r'.isInitializing n = r.isInitializing n := by
  rw [isInitializing, isInitializing, h]

lemma isInitializing_of_nil (h : r.scopes = []) (n : String) : r.isInitializing n = false := by
  rw [isInitializing, h]
  rfl

lemma isInitializing_enter (h : r.scopes ≠ []) (name n : String) (ready : Bool) :
    (r.enter name ready).isInitializing n =
      if name = n then !ready else r.isInitializing n := by
  obtain ⟨scope, outer, hscopes⟩ := List.exists_cons_of_ne_nil h
  simp only [enter, isInitializing, hscopes, List.head?_cons, Option.any_some,
    Std.TreeMap.getElem?_insert, Std.LawfulEqCmp.compare_eq_iff_eq]
  by_cases hn : name = n
  · cases ready <;> simp [hn]
  · simp [hn]

lemma isInitializing_declare (h : r.scopes ≠ []) (t : Token) (n : String) :
    (r.declare t).isInitializing n = (decide (t.lexeme = n) || r.isInitializing n) := by
  rw [isInitializing_congr (declare_scopes r t), isInitializing_enter h]
  by_cases hn : t.lexeme = n <;> simp [hn]

/-- After its declaration is complete, no name is waiting for its initializer. -/
lemma not_isInitializing_define (t : Token) (h : ∀ n, r.isInitializing n = false) (n : String) :
    ((r.declare t).define t).isInitializing n = false := by
  have hadds := Adds.declare r t
  by_cases hscopes : r.scopes = []
  · have hdefined := (Adds.declare_define r t).isNil.mpr hscopes
    exact isInitializing_of_nil hdefined n
  · have hdeclared : (r.declare t).scopes ≠ [] := fun hnil => hscopes (hadds.isNil.mp hnil)
    rw [define, isInitializing_enter hdeclared, isInitializing_declare hscopes, h n]
    by_cases hn : t.lexeme = n <;> simp [hn]

lemma not_isInitializing_stmt (s : Stmt) (hs : s.Formed) (h : ∀ n, r.isInitializing n = false)
    (n : String) : (stmt s r).isInitializing n = false := by
  have hscopes := stmt_scopes s r hs
  cases hdeclared : s.declared? with
  | none =>
    rw [hdeclared] at hscopes
    rw [isInitializing_congr hscopes]
    exact h n
  | some t =>
    rw [hdeclared] at hscopes
    rw [isInitializing_congr hscopes]
    exact not_isInitializing_define t h n

end Initializing

/-- What the walk knows in an expression. -/
structure Inside (around : Surroundings) (r : Resolver) : Prop where
  classContext : r.classContext = around.classContext
  initializing : ∀ n, r.isInitializing n = around.initializes n

/-- What the walk knows where functions can be. -/
structure Stands (around : Surroundings) (r : Resolver) : Prop where
  functionContext : r.functionContext = around.functionContext
  classContext : r.classContext = around.classContext
  plain : ∀ n, around.initializes n = false

/-- What the walk knows where statements can be. -/
structure At (around : Surroundings) (r : Resolver) : Prop extends Stands around r where
  opens : around.Opens r.scopes
  declared : ∀ n, r.isDeclared n = true ↔ n ∈ around.names
  ready : ∀ n, r.isInitializing n = false

lemma Inside.congr (h : Inside around r) (hscopes : r'.scopes = r.scopes)
    (hcontext : r'.context = r.context) : Inside around r' :=
  ⟨(congrArg Prod.snd hcontext).trans h.classContext,
    fun n => (isInitializing_congr hscopes n).trans (h.initializing n)⟩

lemma Inside.expr (h : Inside around r) (e : Expr) : Inside around (expr e r) :=
  h.congr (expr_scopes e r) (expr_context e r)

lemma Stands.congr (h : Stands around r) (hcontext : r'.context = r.context) : Stands around r' :=
  ⟨(congrArg Prod.fst hcontext).trans h.functionContext,
    (congrArg Prod.snd hcontext).trans h.classContext, h.plain⟩

namespace Stands

lemma block (h : Stands around r) : Stands (.scope .block [] [] :: around) r :=
  ⟨h.functionContext, h.classContext, h.plain⟩

/-- In the body of a function. -/
lemma routine (h : Stands around r) {kind : ScopeKind} (hkind : kind ≠ .block) :
    Stands (.scope kind [] [] :: around) { r with functionContext := kind.context } := by
  refine ⟨?_, h.classContext, h.plain⟩
  cases kind with
  | block => exact absurd rfl hkind
  | function => rfl
  | method => rfl

lemma openScope {kind : ScopeKind} (h : Stands (.scope kind [] [] :: around) r) :
    At (.scope kind [] [] :: around) r.openScope where
  toStands := h.congr rfl
  opens := List.cons_ne_nil _ _
  declared := fun n => by simp [isDeclared, Resolver.openScope, Surroundings.names, Construct.names]
  ready := fun n => by simp [isInitializing, Resolver.openScope]

end Stands

namespace At

lemma inside (h : At around r) : Inside around r :=
  ⟨h.classContext, fun n => (h.ready n).trans (h.plain n).symm⟩

lemma congr (h : At around r) (hscopes : r'.scopes = r.scopes) (hcontext : r'.context = r.context) :
    At around r' where
  toStands := h.toStands.congr hcontext
  opens := by rw [hscopes]; exact h.opens
  declared := fun n => by rw [isDeclared, hscopes]; exact h.declared n
  ready := fun n => (isInitializing_congr hscopes n).trans (h.ready n)

lemma expr (h : At around r) (e : Expr) : At around (expr e r) :=
  h.congr (expr_scopes e r) (expr_context e r)

/-- A statement that declares nothing, as a branch does. -/
lemma branch (h : At around r) {s : Stmt} (hs : s.Formed) (hdeclared : s.declared? = none) :
    At around (stmt s r) := by
  have hscopes := stmt_scopes s r hs
  rw [hdeclared] at hscopes
  exact h.congr hscopes (stmt_context s r)

/-- In the initializer of a variable. -/
lemma initializer (h : At around r) (name : Token) :
    Inside (.initializer name :: around) (r.declare name) := by
  refine ⟨(congrArg Prod.snd (declare_context r name)).trans h.classContext, fun n => ?_⟩
  match around, h with
  | [], h =>
    have hnil := (Adds.declare r name).isNil.mpr h.opens
    rw [isInitializing_of_nil hnil]
    simp [Surroundings.initializes]
  | .scope kind params earlier :: outer, h =>
    rw [isInitializing_declare h.opens, h.ready n, Surroundings.initializes, h.plain n]
    rfl

/-- A further parameter. -/
lemma parameter {kind : ScopeKind} {params : List Token}
    (h : At (.scope kind params [] :: around) r) (t : Token) :
    At (.scope kind (params ++ [t]) [] :: around) ((r.declare t).define t) := by
  have hadds := Adds.declare_define r t
  have hcontext : ((r.declare t).define t).context = r.context :=
    (define_context _ t).trans (declare_context r t)
  obtain ⟨hfunction, hclass, hplain⟩ := h.toStands.congr hcontext
  refine ⟨⟨?_, hclass, hplain⟩, fun hnil => h.opens (hadds.isNil.mp hnil), fun n => ?_,
    not_isInitializing_define t h.ready⟩
  · rw [hfunction]
    cases kind <;> rfl
  · rw [hadds.isDeclared h.opens, h.declared]
    simp [Surroundings.names, Construct.names]

/-- After a statement. -/
lemma stmt (h : At around r) {s : Stmt} (hs : s.Formed) :
    At (around.past s) (Resolver.stmt s r) := by
  have hadds := stmt_adds s r hs
  obtain ⟨hfunction, hclass, hplain⟩ := h.toStands.congr (stmt_context s r)
  refine ⟨⟨?_, ?_, fun n => ?_⟩, ?_, fun n => ?_, not_isInitializing_stmt s hs h.ready⟩
  · rw [hfunction, Surroundings.functionContext_past]
  · rw [hclass, Surroundings.classContext_past]
  · rw [Surroundings.initializes_past, hplain]
  · match around, h with
    | [], h => exact hadds.isNil.mpr h.opens
    | .scope .. :: _, h => exact fun hnil => h.opens (hadds.isNil.mp hnil)
  · match around, h with
    | [], h =>
      have hnil := hadds.isNil.mpr h.opens
      simp [isDeclared, hnil, Surroundings.past, Surroundings.names]
    | .scope kind params earlier :: outer, h =>
      rw [hadds.isDeclared h.opens, h.declared, ← List.mem_append]
      exact (congrArg (n ∈ ·) (Construct.names_past s kind params earlier)).symm.to_iff

end At

section Expressions

lemma checkReturn_reports (h : r.functionContext = around.functionContext) (keyword : Token)
    (hasValue : Bool) :
    (r.checkReturn keyword hasValue).diagnostics =
      r.diagnostics ++ Site.reports [⟨.ret keyword hasValue, around⟩] := by
  rcases around.functionContext_cases with ⟨hfind, hcontext⟩ | ⟨_, _, hfind, hcontext⟩ |
    ⟨name, _, _, hfind, hcontext⟩
  · simp [checkReturn, h, hcontext, note, Site.diagnostic?, Site.fault?, hfind, Part.token]
  · simp [checkReturn, h, hcontext, Site.diagnostic?, Site.fault?, hfind]
  · by_cases hname : name.lexeme = initializerName
    · rw [if_pos hname] at hcontext
      cases hasValue with
      | true =>
        simp [checkReturn, h, hcontext, note, Site.diagnostic?, Site.fault?, hfind, hname,
          Part.token]
      | false => simp [checkReturn, h, hcontext, Site.diagnostic?, Site.fault?, hfind]
    · rw [if_neg hname] at hcontext
      simp [checkReturn, h, hcontext, Site.diagnostic?, Site.fault?, hfind, hname]

lemma var_reports (h : ∀ n, r.isInitializing n = around.initializes n) (i : ExprId)
    (name : Token) :
    (expr (.var i name) r).diagnostics =
      r.diagnostics ++ Site.reports [⟨.read name, around⟩] := by
  simp only [expr, bind_diagnostics, h, Site.reports_cons, Site.reports_nil, Site.diagnostic?,
    Site.fault?, Part.token]
  by_cases hread : around.initializes name.lexeme = true
  · simp [hread, note]
  · simp [hread]

lemma this_reports (h : Inside around r) (i : ExprId) (keyword : Token) :
    (expr (.this i keyword) r).diagnostics =
      r.diagnostics ++ Site.reports [⟨.this keyword, around⟩] := by
  rcases around.classContext_cases with ⟨hfind, hcontext⟩ | ⟨hfind, hcontext⟩ |
    ⟨_, hfind, hcontext⟩
  · simp [expr, h.classContext, hcontext, note, Site.diagnostic?, Site.fault?, hfind, Part.token]
  · simp [expr, h.classContext, hcontext, Site.diagnostic?, Site.fault?, hfind]
  · simp [expr, h.classContext, hcontext, Site.diagnostic?, Site.fault?, hfind]

lemma super_reports (h : Inside around r) (i : ExprId) (keyword method : Token) :
    (expr (.super i keyword method) r).diagnostics =
      r.diagnostics ++ Site.reports [⟨.super keyword, around⟩] := by
  rcases around.classContext_cases with ⟨hfind, hcontext⟩ | ⟨hfind, hcontext⟩ |
    ⟨_, hfind, hcontext⟩
  · simp [expr, h.classContext, hcontext, note, Site.diagnostic?, Site.fault?, hfind, Part.token]
  · simp [expr, h.classContext, hcontext, note, Site.diagnostic?, Site.fault?, hfind, Part.token]
  · simp [expr, h.classContext, hcontext, Site.diagnostic?, Site.fault?, hfind]

mutual

lemma expr_reports (e : Expr) {r : Resolver} (h : Inside around r) :
    (expr e r).diagnostics = r.diagnostics ++ Site.reports (e.sites around) := by
  match e with
  | .literal .. => exact (List.append_nil _).symm
  | .grouping _ e => exact expr_reports e h
  | .unary _ _ _ e => exact expr_reports e h
  | .binary _ _ _ left right =>
    rw [expr, expr_reports right (h.expr left), expr_reports left h, Expr.sites,
      Site.reports_append, List.append_assoc]
  | .logical _ _ _ left right =>
    rw [expr, expr_reports right (h.expr left), expr_reports left h, Expr.sites,
      Site.reports_append, List.append_assoc]
  | .var i name => exact var_reports h.initializing i name
  | .assign _ _ value =>
    rw [expr, bind_diagnostics, expr_reports value h, Expr.sites]
  | .call _ callee _ arguments =>
    rw [expr, exprs_reports arguments (h.expr callee), expr_reports callee h, Expr.sites,
      Site.reports_append, List.append_assoc]
  | .get _ object _ => exact expr_reports object h
  | .set _ object _ value =>
    rw [expr, expr_reports object (h.expr value), expr_reports value h, Expr.sites,
      Site.reports_append, List.append_assoc]
  | .this i keyword => exact this_reports h i keyword
  | .super i keyword method => exact super_reports h i keyword method

lemma exprs_reports (es : List Expr) {r : Resolver} (h : Inside around r) :
    (exprs es r).diagnostics = r.diagnostics ++ Site.reports (Expr.sitesAll around es) := by
  match es with
  | [] => exact (List.append_nil _).symm
  | e :: es =>
    rw [exprs, exprs_reports es (h.expr e), expr_reports e h, Expr.sitesAll, Site.reports_append,
      List.append_assoc]

end

lemma optionalExpr_reports (e : Option Expr) (h : Inside around r) :
    (optionalExpr e r).diagnostics = r.diagnostics ++ Site.reports (Expr.sitesOf around e) := by
  cases e with
  | none => exact (List.append_nil _).symm
  | some e => exact expr_reports e h

end Expressions

section Statements

lemma declare_reports (h : ∀ n, r.isDeclared n = true ↔ n ∈ around.names) (name : Token) :
    (r.declare name).diagnostics =
      r.diagnostics ++ Site.reports [⟨.declaration name, around⟩] := by
  simp only [declare, h, Site.reports_cons, Site.reports_nil, Site.diagnostic?,
    Site.fault?, Part.token]
  by_cases hname : name.lexeme ∈ around.names
  · simp [hname, note]
  · simp [hname]

lemma parameters_reports (kind : ScopeKind) (params before : List Token) {r : Resolver}
    (h : At (.scope kind before [] :: around) r) :
    (r.parameters params).diagnostics =
        r.diagnostics ++ Site.reports (parameterSites around kind before params) ∧
      At (.scope kind (before ++ params) [] :: around) (r.parameters params) := by
  induction params generalizing before r with
  | nil =>
    rw [List.append_nil]
    exact ⟨(List.append_nil _).symm, h⟩
  | cons t params ih =>
    obtain ⟨hreports, hat⟩ := ih (before ++ [t]) (h.parameter t)
    rw [List.append_assoc, List.singleton_append] at hat
    refine ⟨?_, hat⟩
    refine hreports.trans ?_
    rw [define_diagnostics, declare_reports h.declared, parameterSites, List.append_assoc,
      ← Site.reports_append, List.singleton_append]

lemma checkSuperclass_reports (name parent : Token) (i : ExprId) :
    (r.checkSuperclass name (.var i parent)).diagnostics =
      r.diagnostics ++ Site.reports [⟨.superclass name parent, around⟩] := by
  simp only [checkSuperclass, Site.reports_cons, Site.reports_nil, Site.diagnostic?, Site.fault?,
    Part.token]
  by_cases hname : parent.lexeme = name.lexeme
  · simp [hname, note]
  · simp [hname]

/-- The superclass is a variable, and none is waiting for its initializer. -/
lemma openSuperclass_reports (name : Token) (superclass : Option Expr)
    (hvar : superclass.all Expr.isVar) (hready : ∀ n, r.isInitializing n = false)
    (hplain : ∀ n, around.initializes n = false) :
    (r.openSuperclass name superclass).diagnostics =
      r.diagnostics ++ Site.reports (Expr.superclassSites around name superclass) := by
  cases superclass with
  | none => exact (List.append_nil _).symm
  | some e =>
    cases e with
    | var i parent =>
      have hscopes := checkSuperclass_scopes name (.var i parent) r
      have hread : ∀ n, isInitializing n { r.checkSuperclass name (.var i parent) with
          classContext := .derived } = around.initializes n := fun n =>
        (isInitializing_congr hscopes n).trans ((hready n).trans (hplain n).symm)
      simp only [openSuperclass, enter_diagnostics, openScope_diagnostics]
      rw [var_reports hread, checkSuperclass_reports, List.append_assoc, ← Site.reports_append]
      rfl
    | _ => cases hvar

/-- In the body of a class. -/
lemma Stands.classBody (h : Stands around r) (name : Token) (superclass : Option Expr) :
    Stands (.classBody superclass :: around)
      (((({ r with classContext := .base }.declare name).define name).openSuperclass name
        superclass).openScope.enter thisName true) := by
  have hdeclared : (({ r with classContext := .base }.declare name).define name).context =
      (r.functionContext, .base) := (define_context _ _).trans (declare_context _ _)
  generalize ({ r with classContext := .base }.declare name).define name = declared at hdeclared ⊢
  have hopened : (declared.openSuperclass name superclass).context =
      (r.functionContext, Surroundings.classContext (.classBody superclass :: around)) := by
    cases superclass with
    | none => exact hdeclared
    | some e =>
      rw [openSuperclass_context]
      exact congrArg (·, _) (congrArg Prod.fst hdeclared)
  have hentered := enter_context (declared.openSuperclass name superclass).openScope thisName true
  obtain ⟨hfunction, hclass⟩ := Prod.mk.inj (hentered.trans hopened)
  exact ⟨hfunction.trans h.functionContext, hclass, h.plain⟩

mutual

lemma stmt_reports (s : Stmt) {around : Surroundings} {r : Resolver} (h : At around r)
    (hs : s.Formed) :
    (stmt s r).diagnostics = r.diagnostics ++ Site.reports (s.sites around) := by
  match s with
  | .expression e => rw [stmt, expr_reports e h.inside, Stmt.sites]
  | .print e => rw [stmt, expr_reports e h.inside, Stmt.sites]
  | .varDecl name initializer =>
    rw [stmt, define_diagnostics, optionalExpr_reports initializer (h.initializer name),
      declare_reports h.declared, Stmt.sites, List.append_assoc, ← Site.reports_append,
      List.singleton_append]
  | .block body =>
    rw [stmt, closeScope_diagnostics, stmts_reports body h.toStands.block.openScope hs,
      openScope_diagnostics, Stmt.sites]
  | .ifElse condition thenBranch none =>
    obtain ⟨-, hthen, -⟩ := hs
    rw [stmt, stmt_reports thenBranch (h.expr condition) hthen, expr_reports condition h.inside,
      Stmt.sites, Site.reports_append, List.append_assoc]
  | .ifElse condition thenBranch (some elseBranch) =>
    obtain ⟨-, ⟨hthen, hdeclared⟩, helse, -⟩ := hs
    have hcondition := h.expr condition
    rw [stmt, stmt_reports elseBranch (hcondition.branch hthen hdeclared) helse,
      stmt_reports thenBranch hcondition hthen, expr_reports condition h.inside, Stmt.sites,
      Site.reports_append, Site.reports_append, List.append_assoc, List.append_assoc,
      List.append_assoc]
  | .loop condition body =>
    obtain ⟨-, hbody, -⟩ := hs
    rw [stmt, stmt_reports body (h.expr condition) hbody, expr_reports condition h.inside,
      Stmt.sites, Site.reports_append, List.append_assoc]
  | .funDecl decl =>
    have hdeclared : Stands around ((r.declare decl.name).define decl.name) :=
      h.toStands.congr ((define_context _ decl.name).trans (declare_context r decl.name))
    have hfunction :
        (function .function decl ((r.declare decl.name).define decl.name)).diagnostics = _ :=
      function_reports .function decl (by simp) hdeclared hs.2
    rw [stmt, hfunction, define_diagnostics, declare_reports h.declared, Stmt.sites,
      List.append_assoc, ← Site.reports_append, List.singleton_append]
  | .ret keyword value =>
    have hchecked : Inside around (r.checkReturn keyword value.isSome) :=
      h.inside.congr (checkReturn_scopes keyword _ r) (checkReturn_context keyword _ r)
    rw [stmt, optionalExpr_reports value hchecked, checkReturn_reports h.functionContext,
      Stmt.sites, List.append_assoc, ← Site.reports_append, List.singleton_append]
  | .classDecl name superclass methods =>
    obtain ⟨-, ⟨-, hvar⟩, hformed⟩ := hs
    have hready := not_isInitializing_define (r := { r with classContext := .base }) name h.ready
    have hsuperclass := openSuperclass_reports name superclass hvar hready h.plain
    have hmethods := methods_reports methods (h.toStands.classBody name superclass) hformed
    have hdeclared := declare_reports (r := { r with classContext := .base }) h.declared name
    simp only [stmt, closeSuperclass_diagnostics, closeScope_diagnostics]
    rw [hmethods, enter_diagnostics, openScope_diagnostics, hsuperclass, define_diagnostics,
      hdeclared, Stmt.sites, List.append_assoc, List.append_assoc, ← Site.reports_append,
      ← Site.reports_append, List.singleton_append]

lemma stmts_reports (ss : List Stmt) {around : Surroundings} {r : Resolver} (h : At around r)
    (hss : Stmt.FormedAll ss) :
    (stmts ss r).diagnostics = r.diagnostics ++ Site.reports (Stmt.sitesAll around ss) := by
  match ss with
  | [] => exact (List.append_nil _).symm
  | s :: ss =>
    rw [stmts, stmts_reports ss (h.stmt hss.1) hss.2, stmt_reports s h hss.1, Stmt.sitesAll,
      Site.reports_append, List.append_assoc]

lemma function_reports (kind : ScopeKind) (decl : FunctionDecl) (hkind : kind ≠ .block)
    {around : Surroundings} {r : Resolver} (h : Stands around r) (hdecl : decl.Formed) :
    (function kind.context decl r).diagnostics =
      r.diagnostics ++ Site.reports (decl.sites around kind) := by
  match decl with
  | ⟨name, params, body⟩ =>
    obtain ⟨hparams, hinside⟩ := parameters_reports kind params [] (h.routine hkind).openScope
    rw [List.nil_append] at hinside
    simp only [function, closeScope_diagnostics]
    rw [stmts_reports body hinside hdecl.2, hparams, openScope_diagnostics, FunctionDecl.sites,
      Site.reports_append, List.append_assoc]

lemma methods_reports (decls : List FunctionDecl) {around : Surroundings} {r : Resolver}
    (h : Stands around r) (hdecls : FunctionDecl.FormedAll decls) :
    (functions decls r).diagnostics =
      r.diagnostics ++ Site.reports (FunctionDecl.methodSites around decls) := by
  match decls with
  | [] => exact (List.append_nil _).symm
  | decl :: decls =>
    have hfirst : (function (methodContext decl) decl r).diagnostics = _ :=
      function_reports (.method decl.name) decl (by simp) h hdecls.1
    have hrest := h.congr (function_context (methodContext decl) decl r)
    rw [functions, methods_reports decls hrest hdecls.2, hfirst, FunctionDecl.methodSites,
      Site.reports_append, List.append_assoc]

end

end Statements

end Resolver

lemma Site.reports_eq_nil_iff {sites : List Site} :
    Site.reports sites = [] ↔ ∀ site ∈ sites, ¬ site.IsViolation := by
  rw [Site.reports, List.filterMap_eq_nil_iff]
  refine forall₂_congr fun site _ => ?_
  rw [Site.diagnostic?, Option.map_eq_none_iff, ← Site.isSome_fault?_iff,
    Option.not_isSome_iff_eq_none]

/-- A program that was read from the tokens of a source is accepted if and only if no part of it
breaks a rule. Otherwise it is rejected with one diagnostic for each part that does, in the order in
which the walk comes by. -/
theorem resolve_violations {source : String} {k k' : ExprId} {program : List Stmt}
    (h : parse ((scan source).filterMap Item.token?) k = ⟨.ok program, k'⟩) :
    ((∃ distances, resolve program = .ok distances) ↔
        ∀ site ∈ Stmt.sitesAll [] program, ¬ site.IsViolation) ∧
      ((∃ site ∈ Stmt.sitesAll [] program, site.IsViolation) →
        ∃ ds, resolve program = .error ds ∧
          List.Forall₂ Site.Reported ((Stmt.sitesAll [] program).filter (·.IsViolation)) ds) := by
  have hformed : Stmt.FormedAll program :=
    (parse_eq_ok_iff.mp h).formed (Source.proper_tokens source)
  have hstart : Resolver.At [] {} :=
    ⟨⟨rfl, rfl, fun _ => rfl⟩, rfl, fun n => by simp [Resolver.isDeclared, Surroundings.names],
      fun _ => rfl⟩
  have hdiagnostics : (Resolver.stmts program {}).diagnostics =
      Site.reports (Stmt.sitesAll [] program) := Resolver.stmts_reports program hstart hformed
  constructor
  · simp only [resolve_eq_ok_iff, exists_and_left, exists_eq', and_true, hdiagnostics,
      Site.reports_eq_nil_iff]
  · rintro ⟨site, hsite, hviolation⟩
    refine ⟨_, resolve_eq_error_iff.mpr ⟨hdiagnostics, fun hnil => ?_⟩, Site.forall₂_reported _⟩
    exact Site.reports_eq_nil_iff.mp hnil site hsite hviolation

private def faultySource : String :=
  "zurückgeben; drucke dies; drucke super.m; \x7b var a = a; var a; \x7d" ++
    "funktion f(b) \x7b var b; \x7d klasse K < K \x7b init() \x7b zurückgeben wahr; \x7d \x7d" ++
    "klasse L \x7b m() \x7b drucke super.m; \x7d \x7d"

private def called (lexeme : String) : Token :=
  ⟨.identifier, lexeme, 1⟩

private def returnWord : Token :=
  ⟨.keyword .zurueckgeben, "zurückgeben", 1⟩

private def thisWord : Token :=
  ⟨.keyword .dies, "dies", 1⟩

private def superWord : Token :=
  ⟨.keyword .super, "super", 1⟩

private def faultyProgram : List Stmt :=
  [.ret returnWord none,
    .print (.this 0 thisWord),
    .print (.super 1 superWord (called "m")),
    .block [.varDecl (called "a") (some (.var 2 (called "a"))), .varDecl (called "a") none],
    .funDecl ⟨called "f", [called "b"], [.varDecl (called "b") none]⟩,
    .classDecl (called "K") (some (.var 3 (called "K")))
      [⟨called "init", [], [.ret returnWord (some (.literal 4 (.bool true)))]⟩],
    .classDecl (called "L") none [⟨called "m", [], [.print (.super 5 superWord (called "m"))]⟩]]

private def faultyReports : List Diagnostic :=
  [.scoping returnWord .returnAtTopLevel, .scoping thisWord .thisOutsideClass,
    .scoping superWord .superOutsideClass, .scoping (called "a") .readInOwnInitializer,
    .scoping (called "a") .alreadyDeclared, .scoping (called "b") .alreadyDeclared,
    .scoping (called "K") .inheritsFromItself, .scoping returnWord .returnValueFromInitializer,
    .scoping superWord .superWithoutSuperclass]

/-- A source that breaks every rule, and one of them twice. -/
theorem resolve_violations_faultySource :
    parse ((scan faultySource).filterMap Item.token?) 0 = ⟨.ok faultyProgram, 6⟩ ∧
      (∃ site ∈ Stmt.sitesAll [] faultyProgram, site.IsViolation) ∧
      resolve faultyProgram = .error faultyReports ∧
      List.Forall₂ Site.Reported ((Stmt.sitesAll [] faultyProgram).filter (·.IsViolation))
        faultyReports := by
  have hparse : parse ((scan faultySource).filterMap Item.token?) 0 = ⟨.ok faultyProgram, 6⟩ := by
    decide +kernel
  have hsite : ∃ site ∈ Stmt.sitesAll [] faultyProgram, site.IsViolation :=
    ⟨⟨.ret returnWord false, []⟩, List.mem_cons_self .., _, .returnAtTopLevel (by simp)⟩
  have hresolve : resolve faultyProgram = .error faultyReports :=
    resolve_eq_error_iff.mpr (by decide +kernel)
  obtain ⟨ds, hds, hreported⟩ := (resolve_violations hparse).2 hsite
  obtain rfl : faultyReports = ds := Except.error.inj (hresolve.symm.trans hds)
  exact ⟨hparse, hsite, hresolve, hreported⟩

end GermanLox
