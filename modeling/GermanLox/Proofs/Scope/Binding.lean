import GermanLox.Proofs.Equality
import GermanLox.Proofs.Scope.Declared
import GermanLox.Proofs.Scope.InOrder
import GermanLox.Proofs.Source.Places

/-!
# Textual binding

Where a name is bound can be read off the text: in the innermost of the local scopes around it that
declares the name in a place before it. A block is a scope, so is a function with its parameters;
a class is a scope that declares `dies` around its methods, and a subclass one more around that
that declares `super`. The distances that the walk over a program records are the ones of this
definition.
-/

namespace GermanLox

/-- An occurrence of a name, in a program with places for lines. -/
structure Reference where
  id : ExprId
  name : String
  place : Nat
  /-- What the local scopes around it declare anywhere, innermost scope first. -/
  scopes : List (List Token)

namespace Reference

def of (scopes : List (List Token)) (id : ExprId) (t : Token) : Reference :=
  ⟨id, t.lexeme, t.line, scopes⟩

/-- A scope declares the name before the occurrence. -/
def DeclaredIn (r : Reference) (scope : List Token) : Prop :=
  ∃ t ∈ scope, t.lexeme = r.name ∧ t.line < r.place

instance (r : Reference) (scope : List Token) : Decidable (r.DeclaredIn scope) :=
  inferInstanceAs (Decidable (∃ t ∈ scope, _))

/-- The innermost scope that declares the name before the occurrence is so many scopes out. -/
def BoundAt (r : Reference) (d : Nat) : Prop :=
  (∃ scope, r.scopes[d]? = some scope ∧ r.DeclaredIn scope) ∧
    ∀ j < d, ∀ scope, r.scopes[j]? = some scope → ¬ r.DeclaredIn scope

def distance? (r : Reference) : Option Nat :=
  r.scopes.findIdx? fun scope => r.DeclaredIn scope

lemma distance?_eq_some_iff {r : Reference} {d : Nat} : r.distance? = some d ↔ r.BoundAt d := by
  rw [distance?, List.findIdx?_eq_some_iff_getElem]
  constructor
  · rintro ⟨hd, hdeclared, hbefore⟩
    refine ⟨⟨_, List.getElem?_eq_getElem hd, of_decide_eq_true hdeclared⟩,
      fun j hj scope hscope => ?_⟩
    obtain ⟨hj', rfl⟩ := List.getElem?_eq_some_iff.mp hscope
    simpa using hbefore j hj
  · rintro ⟨⟨scope, hscope, hdeclared⟩, hbefore⟩
    obtain ⟨hd, rfl⟩ := List.getElem?_eq_some_iff.mp hscope
    refine ⟨hd, decide_eq_true hdeclared, fun j hj => ?_⟩
    simpa using hbefore j hj _ (List.getElem?_eq_getElem (Nat.lt_trans hj hd))

end Reference

mutual

/-- The occurrences of names in an expression, in the order of the walk. -/
def Expr.references (scopes : List (List Token)) : Expr → List Reference
  | .literal .. => []
  | .grouping _ e => e.references scopes
  | .unary _ _ _ e => e.references scopes
  | .binary _ _ _ left right => left.references scopes ++ right.references scopes
  | .logical _ _ _ left right => left.references scopes ++ right.references scopes
  | .var id name => [.of scopes id name]
  | .assign id name value => value.references scopes ++ [.of scopes id name]
  | .call _ callee _ arguments =>
    callee.references scopes ++ Expr.referencesAll scopes arguments
  | .get _ object _ => object.references scopes
  | .set _ object _ value => value.references scopes ++ object.references scopes
  | .this id keyword => [.of scopes id keyword]
  | .super id keyword _ => [.of scopes id keyword]

def Expr.referencesAll (scopes : List (List Token)) : List Expr → List Reference
  | [] => []
  | e :: es => e.references scopes ++ Expr.referencesAll scopes es

end

def Expr.referencesOf (scopes : List (List Token)) : Option Expr → List Reference
  | none => []
  | some e => e.references scopes

/-- The scopes around the methods of a class, which declare their names where it is declared. -/
def classScopes (name : Token) (superclass : Option Expr) (scopes : List (List Token)) :
    List (List Token) :=
  [{ name with lexeme := thisName }] ::
    match superclass with
    | none => scopes
    | some _ => [{ name with lexeme := superName }] :: scopes

mutual

def Stmt.references (scopes : List (List Token)) : Stmt → List Reference
  | .expression e => e.references scopes
  | .print e => e.references scopes
  | .varDecl _ initializer => Expr.referencesOf scopes initializer
  | .block body => Stmt.referencesAll (body.filterMap Stmt.declared? :: scopes) body
  | .ifElse condition thenBranch none =>
    condition.references scopes ++ thenBranch.references scopes
  | .ifElse condition thenBranch (some elseBranch) =>
    condition.references scopes ++ (thenBranch.references scopes ++ elseBranch.references scopes)
  | .loop condition body => condition.references scopes ++ body.references scopes
  | .funDecl decl => decl.references scopes
  | .ret _ value => Expr.referencesOf scopes value
  | .classDecl name superclass methods =>
    Expr.referencesOf scopes superclass ++
      FunctionDecl.referencesAll (classScopes name superclass scopes) methods

def Stmt.referencesAll (scopes : List (List Token)) : List Stmt → List Reference
  | [] => []
  | s :: ss => s.references scopes ++ Stmt.referencesAll scopes ss

def FunctionDecl.references (scopes : List (List Token)) : FunctionDecl → List Reference
  | ⟨_, params, body⟩ =>
    Stmt.referencesAll ((params ++ body.filterMap Stmt.declared?) :: scopes) body

def FunctionDecl.referencesAll (scopes : List (List Token)) :
    List FunctionDecl → List Reference
  | [] => []
  | decl :: decls => decl.references scopes ++ FunctionDecl.referencesAll scopes decls

end

/-- A table with the distances of some occurrences. -/
def Distances.record (table : Distances) (references : List Reference) : Distances :=
  references.foldl (fun table r => match r.distance? with
    | none => table
    | some d => table.insert r.id d) table

lemma Distances.record_append (table : Distances) (rs rs' : List Reference) :
    table.record (rs ++ rs') = (table.record rs).record rs' :=
  List.foldl_append

lemma findIdx?_congr {α β : Type} {p : α → Bool} {q : β → Bool} {as : List α} {bs : List β}
    (h : List.Forall₂ (fun a b => p a = q b) as bs) : as.findIdx? p = bs.findIdx? q := by
  induction h with
  | nil => rfl
  | cons hfirst _ ih => rw [List.findIdx?_cons, List.findIdx?_cons, hfirst, ih]

/-- The open scopes have the names that are declared before each of the given tokens. -/
def Agrees (scopes : List Scope) (declared : List (List Token)) (us : List Token) : Prop :=
  List.Forall₂ (fun scope names => ∀ u ∈ us, ∀ n,
    scope.contains n = true ↔ ∃ t ∈ names, t.lexeme = n ∧ t.line < u.line) scopes declared

namespace Agrees

variable {scopes : List Scope} {declared : List (List Token)} {us us' : List Token}

lemma mono (h : Agrees scopes declared us) (hus : ∀ u ∈ us', u ∈ us) :
    Agrees scopes declared us' :=
  h.imp fun _ _ hscope u hu => hscope u (hus u hu)

lemma left (h : Agrees scopes declared (us ++ us')) : Agrees scopes declared us :=
  h.mono fun _ => List.mem_append_left _

lemma right (h : Agrees scopes declared (us ++ us')) : Agrees scopes declared us' :=
  h.mono fun _ => List.mem_append_right _

/-- A name is found where it is bound. -/
lemma findIdx?_eq (h : Agrees scopes declared us) {u : Token} (hu : u ∈ us) (id : ExprId) :
    scopes.findIdx? (·.contains u.lexeme) = (Reference.of declared id u).distance? := by
  refine findIdx?_congr (h.imp fun scope names hscope => ?_)
  rw [Bool.eq_iff_iff, hscope u hu, decide_eq_true_iff]
  exact Iff.rfl

end Agrees

namespace Resolver

variable {r : Resolver} {declared : List (List Token)} {g : Token → Token}

lemma bind_distances {us : List Token} (h : Agrees r.scopes declared us) {u : Token} (hu : u ∈ us)
    (id : ExprId) : (r.bind id u.lexeme).distances = r.distances.record [.of declared id u] := by
  unfold bind
  rw [h.findIdx?_eq hu id]
  simp only [Distances.record, List.foldl_cons, List.foldl_nil]
  cases (Reference.of declared id u).distance? <;> rfl

mutual

lemma expr_records (hg : ∀ t, (g t).lexeme = t.lexeme) (e : Expr) {r : Resolver}
    (h : Agrees r.scopes declared e.tokens) (hclean : (expr (e.relabel id g) r).diagnostics = []) :
    (expr (e.relabel id g) r).distances = r.distances.record (e.references declared) := by
  match e with
  | .literal .. => rfl
  | .grouping _ e => exact expr_records hg e h hclean
  | .unary _ _ _ e => exact expr_records hg e (h.mono fun _ => List.mem_cons_of_mem _) hclean
  | .binary _ _ _ left right =>
    replace h := h.mono fun _ => List.mem_cons_of_mem _
    rw [Expr.relabel, expr] at hclean ⊢
    rw [expr_records hg right (by rw [expr_scopes]; exact h.right) hclean,
      expr_records hg left h.left (clean_of_expr _ hclean), Expr.references,
      Distances.record_append]
  | .logical _ _ _ left right =>
    replace h := h.mono fun _ => List.mem_cons_of_mem _
    rw [Expr.relabel, expr] at hclean ⊢
    rw [expr_records hg right (by rw [expr_scopes]; exact h.right) hclean,
      expr_records hg left h.left (clean_of_expr _ hclean), Expr.references,
      Distances.record_append]
  | .var i name =>
    rw [Expr.relabel, expr, hg]
    have hname := fun (q : Resolver) (hq : q.scopes = r.scopes) =>
      bind_distances (r := q) (hq ▸ h) (List.mem_singleton_self name) i
    split
    · exact hname _ rfl
    · exact hname _ rfl
  | .assign i name value =>
    rw [Expr.relabel, expr] at hclean ⊢
    rw [bind_diagnostics] at hclean
    have hvalue := expr_records hg value (h.mono fun _ => List.mem_cons_of_mem _) hclean
    rw [hg, bind_distances (by rwa [expr_scopes]) (List.mem_cons_self ..), hvalue,
      Expr.references, Distances.record_append]
    rfl
  | .call _ callee _ arguments =>
    replace h := h.mono fun _ => List.mem_cons_of_mem _
    rw [Expr.relabel, expr] at hclean ⊢
    rw [exprs_records hg arguments (by rw [expr_scopes]; exact h.right) hclean,
      expr_records hg callee h.left (clean_of_exprs _ hclean), Expr.references,
      Distances.record_append]
  | .get _ object _ => exact expr_records hg object (h.mono fun _ => List.mem_cons_of_mem _) hclean
  | .set _ object _ value =>
    replace h := h.mono fun _ => List.mem_cons_of_mem _
    rw [Expr.relabel, expr] at hclean ⊢
    rw [expr_records hg object (by rw [expr_scopes]; exact h.left) hclean,
      expr_records hg value h.right (clean_of_expr _ hclean), Expr.references,
      Distances.record_append]
  | .this i keyword =>
    rw [Expr.relabel, expr] at hclean ⊢
    split at hclean
    · exact absurd hclean (note_diagnostics_ne _ _ _)
    · rw [hg]
      exact bind_distances h (List.mem_singleton_self keyword) i
    · rw [hg]
      exact bind_distances h (List.mem_singleton_self keyword) i
  | .super i keyword method =>
    rw [Expr.relabel, expr, hg]
    have hname := fun (q : Resolver) (hq : q.scopes = r.scopes) =>
      bind_distances (r := q) (hq ▸ h) (List.mem_cons_self : keyword ∈ [keyword, method]) i
    split
    · exact hname _ rfl
    · exact hname _ rfl
    · exact hname _ rfl

lemma exprs_records (hg : ∀ t, (g t).lexeme = t.lexeme) (es : List Expr) {r : Resolver}
    (h : Agrees r.scopes declared (Expr.tokensAll es))
    (hclean : (exprs (Expr.relabelAll id g es) r).diagnostics = []) :
    (exprs (Expr.relabelAll id g es) r).distances =
      r.distances.record (Expr.referencesAll declared es) := by
  match es with
  | [] => rfl
  | e :: es =>
    rw [Expr.relabelAll, exprs] at hclean ⊢
    rw [exprs_records hg es (by rw [expr_scopes]; exact h.right) hclean,
      expr_records hg e h.left (clean_of_exprs _ hclean), Expr.referencesAll,
      Distances.record_append]

end

lemma optionalExpr_records (hg : ∀ t, (g t).lexeme = t.lexeme) (e : Option Expr)
    (h : Agrees r.scopes declared (Expr.tokensOf e))
    (hclean : (optionalExpr (e.map (Expr.relabel id g)) r).diagnostics = []) :
    (optionalExpr (e.map (Expr.relabel id g)) r).distances =
      r.distances.record (Expr.referencesOf declared e) := by
  cases e with
  | none => rfl
  | some e => exact expr_records hg e h hclean

section Statements

lemma declared_relabel (s : Stmt) : (s.relabel id g).declared? = s.declared?.map g := by
  cases s with
  | ifElse condition thenBranch elseBranch => cases elseBranch <;> rfl
  | funDecl decl => cases decl; rfl
  | _ => rfl

/-- A statement adds the name that it declares, whatever its tokens are. -/
lemma stmt_adds_relabel (hg : ∀ t, (g t).lexeme = t.lexeme) (s : Stmt) (r : Resolver)
    (hs : (s.relabel id g).Formed) :
    Adds (s.declared?.toList.map Token.lexeme) r (stmt (s.relabel id g) r) := by
  have hadds := stmt_adds (s.relabel id g) r hs
  rw [declared_relabel] at hadds
  cases hdeclared : s.declared? with
  | none => rwa [hdeclared] at hadds
  | some t =>
    rw [hdeclared] at hadds
    simpa [hg] using hadds

/-- Where a walk stands in a scope, before some statements: the scope has the names before it, and
all of its names are those and the names that the statements declare. -/
inductive Standing (r : Resolver) (ss : List Stmt) (before : List Token) :
    List (List Token) → Prop
  | top (h : r.scopes = []) : Standing r ss before []
  | inner {names : List Token} {declared : List (List Token)} (hne : r.scopes ≠ [])
    (hnames : names = before ++ ss.filterMap Stmt.declared?)
    (hdeclared : ∀ n, r.isDeclared n = true ↔ ∃ t ∈ before, t.lexeme = n)
    (hbefore : ∀ t ∈ before, ∀ u ∈ Stmt.tokensAll ss, t.line < u.line)
    (houter : Agrees r.scopes.tail declared (Stmt.tokensAll ss)) :
    Standing r ss before (names :: declared)

lemma agrees_cons {names us : List Token} (hne : r.scopes ≠ [])
    (hnames : ∀ u ∈ us, ∀ n, r.isDeclared n = true ↔ ∃ t ∈ names, t.lexeme = n ∧ t.line < u.line)
    (houter : Agrees r.scopes.tail declared us) : Agrees r.scopes (names :: declared) us := by
  obtain ⟨scope, outer, hscopes⟩ := List.exists_cons_of_ne_nil hne
  rw [hscopes] at houter ⊢
  refine .cons (fun u hu n => ?_) houter
  rw [← hnames u hu n, Resolver.isDeclared, hscopes]
  rfl

variable {s : Stmt} {ss : List Stmt} {before : List Token} {r' : Resolver}

/-- Inside of the next statement, its own name is declared and those of later ones are not. -/
lemma Standing.agrees (h : Standing r (s :: ss) before declared)
    (horder : Stmt.InOrderAll (s :: ss))
    (hadds : Adds (s.declared?.toList.map Token.lexeme) r r') :
    Agrees r'.scopes declared s.inside := by
  cases h with
  | top h =>
    rw [hadds.isNil.mpr h]
    exact .nil
  | inner hne hnames hdeclared hbefore houter =>
    obtain ⟨⟨hs, -⟩, hlater, -⟩ := horder
    have hown := hs.declared_lt_inside
    have hinside : ∀ u ∈ s.inside, u ∈ Stmt.tokensAll (s :: ss) := fun u hu =>
      List.mem_append_left _ (s.inside_subset u hu)
    refine agrees_cons (fun hnil => hne (hadds.isNil.mp hnil)) (fun u hu n => ?_) ?_
    · rw [hadds.isDeclared hne, hdeclared, hnames]
      constructor
      · rintro (⟨t, ht, hn⟩ | hn)
        · exact ⟨t, List.mem_append_left _ ht, hn, hbefore t ht u (hinside u hu)⟩
        · obtain ⟨t, ht, hn⟩ := List.mem_map.mp hn
          have ht := Option.mem_toList.mp ht
          refine ⟨t, List.mem_append_right _ ?_, hn, hown t ht u hu⟩
          exact List.mem_filterMap.mpr ⟨s, List.mem_cons_self .., ht⟩
      · rintro ⟨t, ht, hn, hlt⟩
        rcases List.mem_append.mp ht with ht | ht
        · exact .inl ⟨t, ht, hn⟩
        · obtain ⟨s', hs', hdeclares⟩ := List.mem_filterMap.mp ht
          rcases List.mem_cons.mp hs' with rfl | hs'
          · exact .inr (List.mem_map.mpr ⟨t, Option.mem_toList.mpr hdeclares, hn⟩)
          · have := hlater u (s.inside_subset u hu) t (List.mem_filterMap.mpr ⟨s', hs', hdeclares⟩)
            omega
    · rw [hadds.outer]
      exact houter.mono hinside

lemma Standing.next (h : Standing r (s :: ss) before declared)
    (horder : Stmt.InOrderAll (s :: ss))
    (hadds : Adds (s.declared?.toList.map Token.lexeme) r r') :
    Standing r' ss (before ++ s.declared?.toList) declared := by
  cases h with
  | top h => exact .top (hadds.isNil.mpr h)
  | inner hne hnames hdeclared hbefore houter =>
    obtain ⟨-, -, hown⟩ := horder
    refine .inner (fun hnil => hne (hadds.isNil.mp hnil)) ?_ (fun n => ?_) ?_ ?_
    · rw [hnames, List.filterMap_cons, List.append_assoc]
      cases s.declared? <;> rfl
    · rw [hadds.isDeclared hne, hdeclared]
      simp only [List.mem_map, List.mem_append, or_and_right, exists_or]
    · intro t ht u hu
      rcases List.mem_append.mp ht with ht | ht
      · exact hbefore t ht u (List.mem_append_right _ hu)
      · exact hown t (Option.mem_toList.mp ht) u hu
    · rw [hadds.outer]
      exact houter.mono fun u => List.mem_append_right _

lemma Standing.block {body : List Stmt} (h : Agrees r.scopes declared (Stmt.tokensAll body)) :
    Standing r.openScope body [] (body.filterMap Stmt.declared? :: declared) :=
  .inner (List.cons_ne_nil _ _) (List.nil_append _).symm (by simp [openScope, isDeclared])
    (by simp) h

lemma Standing.function {params : List Token} {body : List Stmt}
    (hparams : ∀ t ∈ params, ∀ u ∈ Stmt.tokensAll body, t.line < u.line)
    (h : Agrees r.scopes declared (Stmt.tokensAll body))
    (hadds : Adds (params.map Token.lexeme) r.openScope r') :
    Standing r' body params ((params ++ body.filterMap Stmt.declared?) :: declared) := by
  have hopened : ∀ n, r.openScope.isDeclared n = false := fun n => by
    simp [openScope, isDeclared]
  refine .inner (fun hnil => List.cons_ne_nil _ _ (hadds.isNil.mp hnil)) rfl (fun n => ?_)
    hparams ?_
  · rw [hadds.isDeclared (List.cons_ne_nil _ _), hopened]
    simp
  · rw [hadds.outer]
    exact h

/-- A name that is entered into a new scope is declared before all that follow it. -/
lemma agrees_enter {us : List Token} {name : Token} {n : String} (ready : Bool)
    (h : Agrees r.scopes declared us) (hname : ∀ u ∈ us, name.line < u.line) :
    Agrees (r.openScope.enter n ready).scopes ([{ name with lexeme := n }] :: declared) us := by
  have hadds := Adds.enter r.openScope n ready
  have hopened : ∀ m, r.openScope.isDeclared m = false := fun m => by
    simp [openScope, isDeclared]
  refine agrees_cons (fun hnil => List.cons_ne_nil _ _ (hadds.isNil.mp hnil)) (fun u hu m => ?_) ?_
  · rw [hadds.isDeclared (List.cons_ne_nil _ _), hopened]
    simp [hname u hu, eq_comm]
  · rw [hadds.outer]
    exact h

/-- A walk that adds no names leaves the agreement as it was. -/
lemma Adds.agrees {us : List Token} (hadds : Adds [] r r') (h : Agrees r.scopes declared us) :
    Agrees r'.scopes declared us := by
  cases hscopes : r.scopes with
  | nil =>
    rw [hadds.isNil.mpr hscopes]
    rwa [hscopes] at h
  | cons scope outer =>
    have hne : r.scopes ≠ [] := by simp [hscopes]
    rw [hscopes] at h
    cases h with
    | cons hscope houter =>
      refine agrees_cons (fun hnil => hne (hadds.isNil.mp hnil)) (fun u hu n => ?_) ?_
      · rw [hadds.isDeclared hne, ← hscope u hu n]
        simp [Resolver.isDeclared, hscopes]
      · rw [hadds.outer, hscopes]
        exact houter

/-- A branch or body declares nothing and is in the scopes of the statement around it. -/
lemma agrees_branch {r₁ : Resolver} {us : List Token} (hs : (s.relabel id g).declared? = none)
    (h : ∀ r', Adds [] r r' → Agrees r'.scopes declared us) (hus : ∀ u ∈ s.tokens, u ∈ us)
    (hr : Adds [] r r₁) :
    ∀ r', Adds (s.declared?.toList.map Token.lexeme) r₁ r' →
      Agrees r'.scopes declared s.inside := by
  intro r' hadds
  rw [declared_relabel, Option.map_eq_none_iff] at hs
  rw [hs] at hadds
  exact (h r' (hr.trans hadds)).mono fun u hu => hus u (s.inside_subset u hu)

/-- The scopes around the methods of a class. -/
lemma openSuperclass_records (hg : ∀ t, (g t).lexeme = t.lexeme) {name : Token}
    {superclass : Option Expr} {us : List Token}
    (h : Agrees r.scopes declared (Expr.tokensOf superclass ++ us))
    (hname : ∀ u ∈ us, name.line < u.line)
    (hclean : (r.openSuperclass (g name) (superclass.map (Expr.relabel id g))).diagnostics = []) :
    (r.openSuperclass (g name) (superclass.map (Expr.relabel id g))).distances =
        r.distances.record (Expr.referencesOf declared superclass) ∧
      Agrees ((r.openSuperclass (g name) (superclass.map (Expr.relabel id g))).openScope.enter
        thisName true).scopes (classScopes name superclass declared) us := by
  cases superclass with
  | none => exact ⟨rfl, agrees_enter true h hname⟩
  | some e =>
    simp only [Option.map_some, openSuperclass] at hclean ⊢
    rw [enter_diagnostics] at hclean
    have hresolved := clean_of_expr (e.relabel id g) hclean
    have hchecked : r.checkSuperclass (g name) (e.relabel id g) = r :=
      (clean_of_checkSuperclass hresolved).2
    rw [hchecked] at hclean ⊢
    have hscopes := expr_scopes (e.relabel id g) { r with classContext := .derived }
    have hsuper := agrees_enter (r := expr (e.relabel id g) { r with classContext := .derived })
      (n := superName) true (by rw [hscopes]; exact h.right) hname
    refine ⟨?_, agrees_enter true hsuper hname⟩
    rw [enter_distances]
    exact expr_records hg e (r := { r with classContext := .derived }) h.left hclean

mutual

/-- A walk over a statement records the distances of its occurrences, if the scopes agree with the
text as soon as the name of the statement is declared. -/
lemma stmt_records (hg : ∀ t, (g t).lexeme = t.lexeme) (s : Stmt)
    (hformed : (s.relabel id g).Formed) (horder : s.InOrder) {r : Resolver}
    {declared : List (List Token)}
    (h : ∀ r', Adds (s.declared?.toList.map Token.lexeme) r r' → Agrees r'.scopes declared s.inside)
    (hclean : (stmt (s.relabel id g) r).diagnostics = []) :
    (stmt (s.relabel id g) r).distances = r.distances.record (s.references declared) := by
  match s with
  | .expression e => exact expr_records hg e (h r (.of_scopes_eq rfl)) hclean
  | .print e => exact expr_records hg e (h r (.of_scopes_eq rfl)) hclean
  | .varDecl name initializer =>
    have hadds : Adds [name.lexeme] r (r.declare (g name)) := by
      rw [← hg]
      exact .declare r (g name)
    rw [Stmt.relabel, stmt] at hclean ⊢
    rw [define_diagnostics] at hclean
    rw [define_distances, optionalExpr_records hg initializer (h _ hadds) hclean, declare_distances]
    rfl
  | .block body =>
    have hagrees := h r (.of_scopes_eq rfl)
    exact stmts_records hg body hformed horder (Standing.block hagrees) hclean
  | .ifElse condition thenBranch none =>
    obtain ⟨-, hthen, hdeclared⟩ := hformed
    have hcondition := Adds.of_scopes_eq (expr_scopes (condition.relabel id g) r)
    have hbranch := agrees_branch hdeclared h (fun u => List.mem_append_right _) hcondition
    rw [Stmt.relabel, stmt] at hclean ⊢
    rw [stmt_records hg thenBranch hthen horder hbranch hclean,
      expr_records hg condition (h r (.of_scopes_eq rfl)).left (clean_of_stmt _ hclean),
      Stmt.references, Distances.record_append]
  | .ifElse condition thenBranch (some elseBranch) =>
    obtain ⟨-, ⟨hthen, hdeclared⟩, helse, hdeclared'⟩ := hformed
    have hcondition := Adds.of_scopes_eq (expr_scopes (condition.relabel id g) r)
    have hbranch := agrees_branch hdeclared h
      (fun u hu => List.mem_append_right _ (List.mem_append_left _ hu)) hcondition
    have hadds := stmt_adds (thenBranch.relabel id g) (expr (condition.relabel id g) r) hthen
    rw [hdeclared] at hadds
    have hbranch' := agrees_branch hdeclared' h
      (fun u hu => List.mem_append_right _ (List.mem_append_right _ hu)) (hcondition.trans hadds)
    rw [Stmt.relabel, stmt] at hclean ⊢
    have hclean' := clean_of_stmt _ hclean
    rw [stmt_records hg elseBranch helse horder.2 hbranch' hclean,
      stmt_records hg thenBranch hthen horder.1 hbranch hclean',
      expr_records hg condition (h r (.of_scopes_eq rfl)).left (clean_of_stmt _ hclean'),
      Stmt.references, Distances.record_append, Distances.record_append]
  | .loop condition body =>
    obtain ⟨-, hbody, hdeclared⟩ := hformed
    have hcondition := Adds.of_scopes_eq (expr_scopes (condition.relabel id g) r)
    have hbranch := agrees_branch hdeclared h (fun u => List.mem_append_right _) hcondition
    rw [Stmt.relabel, stmt] at hclean ⊢
    rw [stmt_records hg body hbody horder hbranch hclean,
      expr_records hg condition (h r (.of_scopes_eq rfl)).left (clean_of_stmt _ hclean),
      Stmt.references, Distances.record_append]
  | .funDecl ⟨name, params, body⟩ =>
    have hadds : Adds [name.lexeme] r ((r.declare (g name)).define (g name)) := by
      rw [← hg]
      exact .declare_define r (g name)
    refine (function_records hg .function ⟨name, params, body⟩ hformed.2 horder.2 (h _ hadds)
      hclean).trans ?_
    rw [define_distances, declare_distances]
    rfl
  | .ret keyword value =>
    rw [Stmt.relabel, stmt] at hclean ⊢
    have hreturn := (clean_of_checkReturn (clean_of_optionalExpr _ hclean)).2.2
    rw [hreturn] at hclean ⊢
    exact optionalExpr_records hg value ((h r (.of_scopes_eq rfl)).mono fun _ =>
      List.mem_cons_of_mem _) hclean
  | .classDecl name superclass methods =>
    obtain ⟨-, -, hmethods⟩ := hformed
    have hadds : Adds [name.lexeme] r
        (({ r with classContext := .base }.declare (g name)).define (g name)) := by
      rw [← hg]
      have hbase := Adds.declare_define { r with classContext := .base } (g name)
      exact ⟨hbase.outer, hbase.isNil, hbase.isDeclared⟩
    simp only [Stmt.relabel, stmt, closeSuperclass_diagnostics, closeSuperclass_distances]
      at hclean ⊢
    have hopened := clean_of_functions _ hclean
    rw [enter_diagnostics] at hopened
    obtain ⟨hdistances, hagrees⟩ := openSuperclass_records hg (h _ hadds)
      (fun u hu => horder.1 u (List.mem_append_right _ hu)) hopened
    refine (functions_records hg methods hmethods horder.2 hagrees hclean).trans ?_
    rw [enter_distances]
    change (openSuperclass _ _ _).distances.record _ = _
    rw [hdistances, define_distances, declare_distances, Stmt.references, Distances.record_append]

lemma stmts_records (hg : ∀ t, (g t).lexeme = t.lexeme) (ss : List Stmt)
    (hformed : Stmt.FormedAll (Stmt.relabelAll id g ss)) (horder : Stmt.InOrderAll ss)
    {r : Resolver} {declared : List (List Token)} {before : List Token}
    (h : Standing r ss before declared)
    (hclean : (stmts (Stmt.relabelAll id g ss) r).diagnostics = []) :
    (stmts (Stmt.relabelAll id g ss) r).distances =
      r.distances.record (Stmt.referencesAll declared ss) := by
  match ss with
  | [] => rfl
  | s :: ss =>
    have hadds := stmt_adds_relabel hg s r hformed.1
    have hs := stmt_records hg s hformed.1 horder.1.1 (fun r' => h.agrees horder)
      (clean_of_stmts _ hclean)
    have hss := stmts_records hg ss hformed.2 horder.1.2 (h.next horder hadds) hclean
    exact hss.trans (by rw [hs, Stmt.referencesAll, Distances.record_append])

lemma function_records (hg : ∀ t, (g t).lexeme = t.lexeme) (context : FunctionContext)
    (decl : FunctionDecl) (hformed : (decl.relabel id g).Formed) (horder : decl.InOrder)
    {r : Resolver} {declared : List (List Token)} (h : Agrees r.scopes declared decl.inside)
    (hclean : (function context (decl.relabel id g) r).diagnostics = []) :
    (function context (decl.relabel id g) r).distances =
      r.distances.record (decl.references declared) := by
  match decl with
  | ⟨_, params, body⟩ =>
    have hadds := Adds.parameters (params.map g) { r with functionContext := context }.openScope
    have hlexemes : (params.map g).map Token.lexeme = params.map Token.lexeme := by
      rw [List.map_map]
      exact List.map_congr_left fun t _ => hg t
    rw [hlexemes] at hadds
    have hbody := stmts_records hg body hformed.2 horder.2
      (Standing.function (r := { r with functionContext := context }) horder.1 h.right hadds) hclean
    refine hbody.trans ?_
    rw [parameters_distances]
    rfl

lemma functions_records (hg : ∀ t, (g t).lexeme = t.lexeme) (decls : List FunctionDecl)
    (hformed : FunctionDecl.FormedAll (FunctionDecl.relabelAll id g decls))
    (horder : FunctionDecl.InOrderAll decls) {r : Resolver} {declared : List (List Token)}
    (h : Agrees r.scopes declared (FunctionDecl.tokensAll decls))
    (hclean : (functions (FunctionDecl.relabelAll id g decls) r).diagnostics = []) :
    (functions (FunctionDecl.relabelAll id g decls) r).distances =
      r.distances.record (FunctionDecl.referencesAll declared decls) := by
  match decls with
  | [] => rfl
  | decl :: decls =>
    have hadds := Adds.of_scopes_eq (function_scopes (methodContext (decl.relabel id g))
      (decl.relabel id g) r)
    have hdecl := function_records hg (methodContext (decl.relabel id g)) decl hformed.1 horder.1
      (h.left.mono decl.inside_subset) (clean_of_functions _ hclean)
    have hdecls := functions_records hg decls hformed.2 horder.2 (hadds.agrees h.right) hclean
    exact hdecls.trans (by rw [hdecl, FunctionDecl.referencesAll, Distances.record_append])

end

end Statements

end Resolver

section Numbers

variable (i : ExprId)

mutual

/-- Occurrences have the numbers of expressions, each at most once. -/
lemma Expr.count_references (declared : List (List Token)) (e : Expr) :
    ((e.references declared).map Reference.id).count i ≤ e.numbers.count i := by
  match e with
  | .literal .. => exact Nat.zero_le _
  | .grouping _ e =>
    have := Expr.count_references declared e
    simp only [Expr.references, Expr.numbers, List.count_cons]
    omega
  | .unary _ _ _ e =>
    have := Expr.count_references declared e
    simp only [Expr.references, Expr.numbers, List.count_cons]
    omega
  | .binary _ _ _ left right =>
    have := Expr.count_references declared left
    have := Expr.count_references declared right
    simp only [Expr.references, Expr.numbers, List.map_append, List.count_append, List.count_cons]
    omega
  | .logical _ _ _ left right =>
    have := Expr.count_references declared left
    have := Expr.count_references declared right
    simp only [Expr.references, Expr.numbers, List.map_append, List.count_append, List.count_cons]
    omega
  | .var .. => exact Nat.le_refl _
  | .assign _ _ value =>
    have := Expr.count_references declared value
    simp only [Expr.references, Expr.numbers, List.map_append, List.count_append, List.count_cons,
      List.map_cons, List.map_nil, List.count_nil, Reference.of]
    omega
  | .call _ callee _ arguments =>
    have := Expr.count_references declared callee
    have := Expr.count_referencesAll declared arguments
    simp only [Expr.references, Expr.numbers, List.map_append, List.count_append, List.count_cons]
    omega
  | .get _ object _ =>
    have := Expr.count_references declared object
    simp only [Expr.references, Expr.numbers, List.count_cons]
    omega
  | .set _ object _ value =>
    have := Expr.count_references declared object
    have := Expr.count_references declared value
    simp only [Expr.references, Expr.numbers, List.map_append, List.count_append, List.count_cons]
    omega
  | .this .. => exact Nat.le_refl _
  | .super .. => exact Nat.le_refl _

lemma Expr.count_referencesAll (declared : List (List Token)) (es : List Expr) :
    ((Expr.referencesAll declared es).map Reference.id).count i ≤ (Expr.numbersAll es).count i := by
  match es with
  | [] => exact Nat.le_refl _
  | e :: es =>
    have := Expr.count_references declared e
    have := Expr.count_referencesAll declared es
    simp only [Expr.referencesAll, Expr.numbersAll, List.map_append, List.count_append]
    omega

end

lemma Expr.count_referencesOf (declared : List (List Token)) (e : Option Expr) :
    ((Expr.referencesOf declared e).map Reference.id).count i ≤ (Expr.numbersOf e).count i := by
  cases e with
  | none => exact Nat.le_refl _
  | some e => exact e.count_references i declared

mutual

lemma Stmt.count_references (declared : List (List Token)) (s : Stmt) :
    ((s.references declared).map Reference.id).count i ≤ s.numbers.count i := by
  match s with
  | .expression e => exact e.count_references i declared
  | .print e => exact e.count_references i declared
  | .varDecl _ e => exact Expr.count_referencesOf i declared e
  | .block body => exact Stmt.count_referencesAll _ body
  | .ifElse condition thenBranch none =>
    have := condition.count_references i declared
    have := Stmt.count_references declared thenBranch
    simp only [Stmt.references, Stmt.numbers, List.map_append, List.count_append]
    omega
  | .ifElse condition thenBranch (some elseBranch) =>
    have := condition.count_references i declared
    have := Stmt.count_references declared thenBranch
    have := Stmt.count_references declared elseBranch
    simp only [Stmt.references, Stmt.numbers, List.map_append, List.count_append]
    omega
  | .loop condition body =>
    have := condition.count_references i declared
    have := Stmt.count_references declared body
    simp only [Stmt.references, Stmt.numbers, List.map_append, List.count_append]
    omega
  | .funDecl decl => exact FunctionDecl.count_references declared decl
  | .ret _ e => exact Expr.count_referencesOf i declared e
  | .classDecl name superclass methods =>
    have := Expr.count_referencesOf i declared superclass
    have := FunctionDecl.count_referencesAll (classScopes name superclass declared) methods
    simp only [Stmt.references, Stmt.numbers, List.map_append, List.count_append]
    omega

lemma Stmt.count_referencesAll (declared : List (List Token)) (ss : List Stmt) :
    ((Stmt.referencesAll declared ss).map Reference.id).count i ≤ (Stmt.numbersAll ss).count i := by
  match ss with
  | [] => exact Nat.le_refl _
  | s :: ss =>
    have := Stmt.count_references declared s
    have := Stmt.count_referencesAll declared ss
    simp only [Stmt.referencesAll, Stmt.numbersAll, List.map_append, List.count_append]
    omega

lemma FunctionDecl.count_references (declared : List (List Token)) (decl : FunctionDecl) :
    ((decl.references declared).map Reference.id).count i ≤ decl.numbers.count i := by
  match decl with
  | ⟨_, params, body⟩ => exact Stmt.count_referencesAll _ body

lemma FunctionDecl.count_referencesAll (declared : List (List Token))
    (decls : List FunctionDecl) :
    ((FunctionDecl.referencesAll declared decls).map Reference.id).count i ≤
      (FunctionDecl.numbersAll decls).count i := by
  match decls with
  | [] => exact Nat.le_refl _
  | decl :: decls =>
    have := FunctionDecl.count_references declared decl
    have := FunctionDecl.count_referencesAll declared decls
    simp only [FunctionDecl.referencesAll, FunctionDecl.numbersAll, List.map_append,
      List.count_append]
    omega

end

end Numbers

section Table

variable {table : Distances} {rs : List Reference} {i : ExprId}

lemma Distances.getElem?_record_of_not_mem (hi : i ∉ rs.map Reference.id) :
    (table.record rs)[i]? = table[i]? := by
  induction rs generalizing table with
  | nil => rfl
  | cons r rs ih =>
    rw [List.map_cons, List.mem_cons, not_or] at hi
    rw [record, List.foldl_cons]
    refine (ih hi.2).trans ?_
    cases r.distance? with
    | none => rfl
    | some d => simp [Std.TreeMap.getElem?_insert, Ne.symm hi.1]

/-- With a number of its own, each occurrence has the distance that was recorded for it. -/
lemma Distances.getElem?_record (hnodup : (rs.map Reference.id).Nodup) {r : Reference}
    (hr : r ∈ rs) (hnone : table[r.id]? = none) : (table.record rs)[r.id]? = r.distance? := by
  induction rs generalizing table with
  | nil => cases hr
  | cons r' rs ih =>
    rw [List.map_cons, List.nodup_cons] at hnodup
    rw [record, List.foldl_cons]
    rcases List.mem_cons.mp hr with rfl | hr
    · refine (Distances.getElem?_record_of_not_mem hnodup.1).trans ?_
      cases r.distance? with
      | none => exact hnone
      | some d => simp
    · refine ih hnodup.2 hr ?_
      have hne : r'.id ≠ r.id := fun heq => hnodup.1 (heq ▸ List.mem_map_of_mem hr)
      cases r'.distance? with
      | none => exact hnone
      | some d => simpa [Std.TreeMap.getElem?_insert, hne] using hnone

lemma Distances.getElem?_record_eq_some_iff (hnodup : (rs.map Reference.id).Nodup) {d : Nat} :
    (({} : Distances).record rs)[i]? = some d ↔ ∃ r ∈ rs, r.id = i ∧ r.BoundAt d := by
  constructor
  · intro h
    by_cases hi : i ∈ rs.map Reference.id
    · obtain ⟨r, hr, rfl⟩ := List.mem_map.mp hi
      rw [Distances.getElem?_record hnodup hr (by simp)] at h
      exact ⟨r, hr, rfl, Reference.distance?_eq_some_iff.mp h⟩
    · rw [Distances.getElem?_record_of_not_mem hi] at h
      simp at h
  · rintro ⟨r, hr, rfl, hbound⟩
    rw [Distances.getElem?_record hnodup hr (by simp)]
    exact Reference.distance?_eq_some_iff.mpr hbound

end Table

/-- The distances of an accepted program are those of the textual binding. The program is read again
from its tokens with places for lines, so that the text's order can be told; every expression has
a number of its own, and a number has a distance exactly if it is the number of an occurrence
that is bound so many scopes out. -/
theorem distances_iff_boundAt {source : String} {k k' : ExprId} {program : List Stmt}
    {distances : Distances}
    (hparse : parse ((scan source).filterMap Item.token?) k = ⟨.ok program, k'⟩)
    (hresolve : resolve program = .ok distances) :
    ∃ tree, parse (Source.placed source) k = ⟨.ok tree, k'⟩ ∧
      program = Stmt.relabelAll id (Source.onLine source) tree ∧
      (Stmt.numbersAll tree).Nodup ∧
      ((Stmt.referencesAll [] tree).map Reference.id).Nodup ∧
      ∀ i d, distances[i]? = some d ↔
        ∃ r ∈ Stmt.referencesAll [] tree, r.id = i ∧ r.BoundAt d := by
  have hread : Reading.Declarations k (Source.tokens source) program k' [] :=
    parse_eq_ok_iff.mp hparse
  have hformed := hread.formed (Source.proper_tokens source)
  obtain ⟨tree, htree, rfl⟩ := Source.exists_placed hread
  have hnumbers := htree.account.nodup_numbers
  have hids : ((Stmt.referencesAll [] tree).map Reference.id).Nodup := by
    rw [List.nodup_iff_count_le_one] at hnumbers ⊢
    exact fun i => Nat.le_trans (Stmt.count_referencesAll i [] tree) (hnumbers i)
  refine ⟨tree, ?_, rfl, hnumbers, hids, fun i d => ?_⟩
  · rw [parse_eq_ok_iff, List.takeWhile_eq_self_iff.mpr fun t ht =>
      decide_eq_true (Source.kind_ne_eof_of_mem_placed ht)]
    exact htree
  · obtain ⟨hclean, rfl⟩ := resolve_eq_ok_iff.mp hresolve
    have hstanding : Resolver.Standing {} tree [] [] := .top rfl
    rw [Resolver.stmts_records (g := Source.onLine source) (fun _ => rfl) tree hformed
      (htree.inOrder (Source.pairwise_placed source)) hstanding hclean]
    exact Distances.getElem?_record_eq_some_iff hids

/-- A name before the declaration of another one in the same block is the outer one; after it, it is
not. -/
theorem distances_hidden : ∃ program distances,
    parse ((scan "{ var a; { drucke a; var a; drucke a; } }").filterMap Item.token?) 0 =
        ⟨.ok program, 2⟩ ∧
      resolve program = .ok distances ∧
      ∃ tree, parse (Source.placed "{ var a; { drucke a; var a; drucke a; } }") 0 = ⟨.ok tree, 2⟩ ∧
        (∃ r ∈ Stmt.referencesAll [] tree, r.id = 0 ∧ r.BoundAt 1) ∧
        ∃ r ∈ Stmt.referencesAll [] tree, r.id = 1 ∧ r.BoundAt 0 := by
  have hparse : parse ((scan "{ var a; { drucke a; var a; drucke a; } }").filterMap Item.token?) 0 =
      ⟨.ok [.block [.varDecl ⟨.identifier, "a", 1⟩ none,
        .block [.print (.var 0 ⟨.identifier, "a", 1⟩), .varDecl ⟨.identifier, "a", 1⟩ none,
          .print (.var 1 ⟨.identifier, "a", 1⟩)]]], 2⟩ := by decide +kernel
  have hresolve : resolve [.block [.varDecl ⟨.identifier, "a", 1⟩ none,
      .block [.print (.var 0 ⟨.identifier, "a", 1⟩), .varDecl ⟨.identifier, "a", 1⟩ none,
        .print (.var 1 ⟨.identifier, "a", 1⟩)]]] =
      .ok ((({} : Distances).insert 0 1).insert 1 0) := rfl
  obtain ⟨tree, htree, -, -, -, hiff⟩ := distances_iff_boundAt hparse hresolve
  exact ⟨_, _, hparse, hresolve, tree, htree, (hiff 0 1).mp (by decide +kernel),
    (hiff 1 0).mp (by decide +kernel)⟩

end GermanLox
