import GermanLox.Proofs.Scope.Lockstep.Expressions
import Mathlib.Data.List.Nodup

/-!
# Statements in lockstep

The walks over two spellings of each kind of statement, given those over its parts. A scope
exchanges the old and the new name if one of the variables that it declares is a chosen one; as the
names of a scope are different from each other, there is at most one.
-/

namespace GermanLox

lemma Layers.Ready.enter {Γ : Layers} (h : Γ.Ready) (n : String) : (Γ.enter n true).Ready := by
  cases Γ with
  | nil => exact h
  | cons layer Γ =>
    intro other hother m
    rcases List.mem_cons.mp hother with rfl | hother
    · by_cases hm : m = n
      · simp [Layer.enter, hm]
      · simpa [Layer.enter, hm] using h layer (List.mem_cons_self ..) m
    · exact h other (List.mem_cons_of_mem _ hother) m

lemma Layers.Ready.cons {Γ : Layers} (h : Γ.Ready) {layer : Layer}
    (hlayer : ∀ n, layer.names n ≠ some false) : Layers.Ready (layer :: Γ) := by
  intro other hother
  rcases List.mem_cons.mp hother with rfl | hother
  · exact hlayer
  · exact h other hother

lemma Layers.enter_enter (Γ : Layers) (n : String) (b b' : Bool) :
    (Γ.enter n b).enter n b' = Γ.enter n b' := by
  cases Γ with
  | nil => rfl
  | cons layer Γ => simp [Layers.enter, Layer.enter]

@[simp] lemma Layers.isEmpty_enter (Γ : Layers) (n : String) (b : Bool) :
    (Γ.enter n b).isEmpty = Γ.isEmpty := by
  cases Γ <;> rfl

lemma Bindings.enter_enter (env : Bindings) (inner : Bool) (o : Token × Option Token) :
    (env.enter inner o).enter inner o = env.enter inner o := by
  cases inner with
  | true => simp [Bindings.enter]
  | false => rfl

/-- At the top level it does not count what a name would be. -/
lemma Bindings.enter_local (env : Bindings) (inner : Bool) (t : Token) (q : Option Token) :
    env.enter inner (t, if inner then q else .none) = env.enter inner (t, q) := by
  cases inner <;> rfl

/-- The scopes after a statement. -/
def Stmt.layers (Γ : Layers) (s : Stmt) : Layers :=
  match s.declares? with
  | none => Γ
  | some o => Γ.enter o.1.lexeme true

namespace Respelling

/-- A name that is declared, with the local variable that it is. -/
structure Declares (ρ : Respelling) (Γ : Layers) (inner : Bool) (o : Token × Option Token) :
    Prop where
  name : o.1.IsName
  covers : ρ.Covers o
  host : ρ.Hosts Γ o
  own : ∀ d, o.2 = some d → d = o.1
  global : Γ = [] → o.2 = none
  inner : inner = !Γ.isEmpty

variable {ρ : Respelling} {env : Bindings} {Γ : Layers} {r r' : Resolver} {inner inside : Bool}
  {o : Token × Option Token}

lemma Hosts.enter (h : ρ.Hosts Γ o) (n : String) (b : Bool) : ρ.Hosts (Γ.enter n b) o := by
  cases Γ with
  | nil => exact h
  | cons layer Γ =>
    rintro _ ⟨⟩
    exact h layer rfl

/-- The class around is the same after a declaration. -/
lemma Hosts.placed (h : ρ.Hosts Γ o) (hname : o.1.IsName) (hknown : ∀ layer ∈ Γ, ρ.Knows layer)
    {context : ClassContext} (hplaced : Placed context Γ) (ready : Bool) :
    Placed context (Γ.enter o.1.lexeme ready) := by
  cases Γ with
  | nil => exact hplaced
  | cons layer Γ =>
    obtain ⟨hlabel, -⟩ := h layer rfl
    have hnames : layer.names thisName = none ∧ layer.names superName = none := by
      cases hknown layer (List.mem_cons_self ..) with
      | names _ hthis hsuper => exact ⟨hthis, hsuper⟩
      | receiver => rcases hlabel with hlabel | hlabel <;> cases hlabel
      | superclass => rcases hlabel with hlabel | hlabel <;> cases hlabel
    refine hplaced.of_cons hnames.1 hnames.2 ?_ ?_
    · simp [Layer.enter, hname.ne_this.symm, hnames.1]
    · simp [Layer.enter, hname.ne_super.symm, hnames.2]

namespace Declares

/-- A declaration of a name that is local inside of a block or function only. -/
lemma of_hosts {t : Token} {q : Option Token} (hname : t.IsName)
    (hcovers : ρ.Covers (t, if inner then q else none)) (hhost : ρ.Hosts Γ (t, q))
    (hown : ∀ d, q = some d → d = t) (hinner : inner = !Γ.isEmpty) :
    ρ.Declares Γ inner (t, if inner then q else none) := by
  subst hinner
  cases Γ with
  | nil => exact ⟨hname, hcovers, fun _ hlayer => (by cases hlayer), fun _ hd => (by cases hd),
      fun _ => rfl, rfl⟩
  | cons layer Γ => exact ⟨hname, hcovers, hhost, hown, fun hnil => (by cases hnil), rfl⟩

lemma enter (h : ρ.Declares Γ inner o) (n : String) (b : Bool) :
    ρ.Declares (Γ.enter n b) inner o where
  name := h.name
  covers := h.covers
  host := h.host.enter n b
  own := h.own
  global := fun hnil => h.global (by cases Γ with | nil => rfl | cons => cases hnil)
  inner := by rw [Layers.isEmpty_enter, h.inner]

lemma declaresAs (h : ρ.Declares Γ inner o) (hρ : ρ.Proper) :
    Γ.DeclaresAs (ρ.left o.1).lexeme (ρ.right o.1).lexeme :=
  h.host.declaresAs h.covers hρ h.own h.global

end Declares

namespace Matches

lemma declareName (h : ρ.Matches env Γ r r') (hρ : ρ.Proper) (ho : ρ.Declares Γ inner o)
    (hclean : (r.declare (ρ.left o.1)).diagnostics = []) :
    ρ.Matches (env.enter inner o) (Γ.enter o.1.lexeme false) (r.declare (ρ.left o.1))
      (r'.declare (ρ.right o.1)) := by
  obtain ⟨hleft, hright⟩ := h.declare hρ ho.covers ho.host ho.own hclean
  rw [hleft, hright]
  exact h.enter hρ ho.covers ho.name ho.host ho.own ho.inner false

lemma defineName (h : ρ.Matches (env.enter inner o) (Γ.enter o.1.lexeme false) r r')
    (hρ : ρ.Proper) (ho : ρ.Declares Γ inner o) :
    ρ.Matches (env.enter inner o) (Γ.enter o.1.lexeme true) (r.define (ρ.left o.1))
      (r'.define (ρ.right o.1)) := by
  have ho' := ho.enter o.1.lexeme false
  have hdefined := h.enter hρ ho'.covers ho'.name ho'.host ho'.own ho'.inner true
  rwa [Bindings.enter_enter, Layers.enter_enter] at hdefined

/-- A name that can be read at once. -/
lemma declareAndDefine (h : ρ.Matches env Γ r r') (hρ : ρ.Proper) (ho : ρ.Declares Γ inner o)
    (hclean : (r.declare (ρ.left o.1)).diagnostics = []) :
    ρ.Matches (env.enter inner o) (Γ.enter o.1.lexeme true)
      ((r.declare (ρ.left o.1)).define (ρ.left o.1))
      ((r'.declare (ρ.right o.1)).define (ρ.right o.1)) :=
  (h.declareName hρ ho hclean).defineName hρ ho

end Matches

/-- Of names that are different from each other at most one is the old one. -/
lemma exists_label (hρ : ρ.Proper) {names : List (Token × Option Token)}
    (hown : ∀ o ∈ names, ∀ d, o.2 = some d → d = o.1)
    (hnodup : (names.map (·.1.lexeme)).Nodup) :
    ∃ rename, (Label.names rename = keep ∨ Label.names rename = ρ.exchange) ∧
      ∀ o ∈ names, o.1.lexeme = ρ.old → (ρ.Renames o.2 ↔ Label.names rename = ρ.exchange) := by
  by_cases hchosen : ∃ o ∈ names, ρ.Renames o.2
  · obtain ⟨o, ho, d, hd, hchosen⟩ := hchosen
    refine ⟨Equiv.swap ρ.old ρ.new, .inr rfl, fun u hu hold => iff_of_true ?_ rfl⟩
    have hlexeme : o.1.lexeme = ρ.old := by rw [← hown o ho d hd, hρ.spelled d hchosen]
    obtain rfl : o = u := List.inj_on_of_nodup_map hnodup ho hu (hlexeme.trans hold.symm)
    exact ⟨d, hd, hchosen⟩
  · refine ⟨Equiv.refl String, .inl rfl, fun u hu _ => iff_of_false ?_ ?_⟩
    · exact fun hrenames => hchosen ⟨u, hu, hrenames⟩
    · exact fun heq => hρ.exchange_ne_keep heq.symm

section Parameters

lemma foldl_enter (params : List Token) (layer : Layer) :
    params.foldl (fun Γ t => Layers.enter t.lexeme true Γ) (layer :: Γ) =
      { layer with
        names := fun n =>
          if n ∈ params.map Token.lexeme then some true else layer.names n } :: Γ := by
  induction params generalizing layer with
  | nil => simp
  | cons t params ih =>
    rw [List.foldl_cons, Layers.enter, ih]
    congr 2
    funext n
    rw [List.map_cons]
    by_cases hn : n ∈ params.map Token.lexeme
    · rw [if_pos hn, if_pos (List.mem_cons_of_mem _ hn)]
    · by_cases ht : n = t.lexeme <;> simp [Layer.enter, hn, ht]

lemma Matches.parameters (hρ : ρ.Proper) {params : List Token}
    (hparams : ∀ t ∈ params, ρ.Declares Γ true (t, some t)) (h : ρ.Matches env Γ r r')
    (hclean : (r.parameters (params.map ρ.left)).diagnostics = []) :
    ρ.Matches (env.withParameters params)
      (params.foldl (fun Γ t => Layers.enter t.lexeme true Γ) Γ)
      (r.parameters (params.map ρ.left)) (r'.parameters (params.map ρ.right)) := by
  induction params generalizing env Γ r r' with
  | nil => exact h
  | cons t params ih =>
    obtain ⟨ht, hparams⟩ := List.forall_mem_cons.mp hparams
    have hfirst : (r.declare (ρ.left t)).diagnostics = [] := by
      rw [← Resolver.define_diagnostics _ (ρ.left t)]
      exact Resolver.clean_of_parameters (params.map ρ.left) hclean
    exact ih (fun u hu => (hparams u hu).enter t.lexeme true) (h.declareAndDefine hρ ht hfirst)
      hclean

end Parameters

/-- The names that are declared directly in some statements. -/
lemma filterMap_declared_relabel (g : Token → Token) (ss : List Stmt) :
    (Stmt.relabelAll id g ss).filterMap Stmt.declared? =
      (ss.filterMap Stmt.declares?).map fun o => g o.1 := by
  induction ss with
  | nil => rfl
  | cons s ss ih =>
    have hs : (s.relabel id g).declared? = s.declares?.map fun o => g o.1 := by
      cases s with
      | ifElse condition thenBranch elseBranch => cases elseBranch <;> rfl
      | funDecl decl => cases decl; rfl
      | _ => rfl
    rw [Stmt.relabelAll, List.filterMap_cons, List.filterMap_cons, hs, ih]
    cases s.declares? <;> rfl

lemma declares_mem_tokens {ss : List Stmt} {o : Token × Option Token}
    (ho : o ∈ ss.filterMap Stmt.declares?) : o.1 ∈ Stmt.tokensAll ss := by
  obtain ⟨s, hs, hdeclares⟩ := List.mem_filterMap.mp ho
  have hmem : o.1 ∈ s.tokens := by
    cases s with
    | varDecl name => cases hdeclares; simp [Stmt.tokens]
    | funDecl decl => cases decl; cases hdeclares; simp [Stmt.tokens, FunctionDecl.tokens]
    | classDecl name => cases hdeclares; simp [Stmt.tokens]
    | _ => cases hdeclares
  clear ho
  induction ss with
  | nil => cases hs
  | cons s' ss ih =>
    rcases List.mem_cons.mp hs with rfl | hs
    · exact List.mem_append_left _ hmem
    · exact List.mem_append_right _ (ih hs)

lemma declares_eq_none {s : Stmt} (hs : s.declared? = none) : s.declares? = none := by
  cases s with
  | varDecl => cases hs
  | funDecl => cases hs
  | classDecl => cases hs
  | _ => rfl

lemma declares_isName {s : Stmt} (hs : s.Formed) (ho : s.declares? = some o) : o.1.IsName := by
  cases s with
  | varDecl => cases ho; exact hs.1
  | funDecl => cases ho; exact hs.1
  | classDecl => cases ho; exact hs.1
  | _ => cases ho

lemma declares_own {s : Stmt} (ho : s.declares? = some o) (d : Token) (hd : o.2 = some d) :
    d = o.1 := by
  cases s with
  | varDecl name => cases ho; exact (Option.some.inj hd).symm
  | funDecl decl => cases ho; cases hd
  | classDecl name => cases ho; cases hd
  | _ => cases ho

/-- What a setting has to know of statements, with the distances recorded for them. -/
structure Tells (ρ : Respelling) (σ : Setting) (tokens : List Token) (numbers own : List ExprId)
    (distances : Distances) : Prop where
  tokens : ∀ t ∈ tokens, σ.tokens (ρ.left t) (ρ.right t)
  entry : ∀ i ∈ numbers, σ.entry i (ρ.number i) distances[i]?
  own : ∀ i ∈ own, σ.own i

namespace Tells

variable {σ : Setting} {tokens tokens' : List Token} {numbers numbers' own own' : List ExprId}
  {distances distances' : Distances}

lemma part (h : ρ.Tells σ tokens numbers own distances) (htokens : ∀ t ∈ tokens', t ∈ tokens)
    (hnumbers : ∀ i ∈ numbers', i ∈ numbers) (hown : ∀ i ∈ own', i ∈ own)
    (hdistances : ∀ i ∈ numbers', distances[i]? = distances'[i]?) :
    ρ.Tells σ tokens' numbers' own' distances' where
  tokens := fun t ht => h.tokens t (htokens t ht)
  entry := fun i hi => by
    rw [← hdistances i hi]
    exact h.entry i (hnumbers i hi)
  own := fun i hi => h.own i (hown i hi)

/-- Where no initializer is open, no assignment comes early. -/
lemma informs (h : ρ.Tells σ tokens numbers own distances) (hready : Γ.Ready)
    (assigns : String → List ExprId) : ρ.Informs σ Γ tokens numbers assigns distances where
  tokens := h.tokens
  entry := h.entry
  own := fun layer hlayer n hopen => absurd hopen (hready layer (List.mem_of_mem_head? hlayer) n)

end Tells

/-- Where statements stand: no initializer is open, there are local scopes or not, and it is inside
of a function if a return is allowed. -/
structure Stands (inner inside : Bool) (Γ : Layers) (r : Resolver) : Prop where
  ready : Γ.Ready
  inner : inner = !Γ.isEmpty
  inside : r.functionContext ≠ .outside → inside = true

/-- Two walks over a statement: they end at the same place, and what is recorded makes its two
spellings alike. -/
structure StmtStep (ρ : Respelling) (env : Bindings) (Γ : Layers) (inner inside : Bool) (s : Stmt)
    (r r' : Resolver) : Prop where
  state : ρ.Matches (s.bindings inner env) (s.layers Γ) (Resolver.stmt (s.relabel id ρ.left) r)
    (Resolver.stmt (s.relabel ρ.number ρ.right) r')
  like : ∀ σ, ρ.Tells σ s.tokens s.numbers s.ownAssigns
      (Resolver.stmt (s.relabel id ρ.left) r).distances →
    StmtLike σ inside Γ (s.relabel id ρ.left) (s.relabel ρ.number ρ.right) (s.layers Γ)

structure StmtsStep (ρ : Respelling) (Γ : Layers) (inside : Bool) (ss : List Stmt)
    (r r' : Resolver) : Prop where
  state : ∃ env₁ Γ₁, ρ.Matches env₁ Γ₁ (Resolver.stmts (Stmt.relabelAll id ρ.left ss) r)
      (Resolver.stmts (Stmt.relabelAll ρ.number ρ.right ss) r') ∧
    Γ₁.tail = Γ.tail ∧ (Γ₁ = [] ↔ Γ = [])
  like : ∀ σ, ρ.Tells σ (Stmt.tokensAll ss) (Stmt.numbersAll ss) (Stmt.ownAssignsAll ss)
      (Resolver.stmts (Stmt.relabelAll id ρ.left ss) r).distances →
    StmtsLike σ inside Γ (Stmt.relabelAll id ρ.left ss) (Stmt.relabelAll ρ.number ρ.right ss)

structure FunctionStep (ρ : Respelling) (env : Bindings) (Γ : Layers) (context : FunctionContext)
    (decl : FunctionDecl) (r r' : Resolver) : Prop where
  state : ρ.Matches env Γ (Resolver.function context (decl.relabel id ρ.left) r)
    (Resolver.function context (decl.relabel ρ.number ρ.right) r')
  like : ∀ σ, ρ.Tells σ decl.tokens decl.numbers decl.ownAssigns
      (Resolver.function context (decl.relabel id ρ.left) r).distances →
    FunctionLike σ Γ (decl.relabel id ρ.left) (decl.relabel ρ.number ρ.right)

structure FunctionsStep (ρ : Respelling) (env : Bindings) (Γ : Layers)
    (decls : List FunctionDecl) (r r' : Resolver) : Prop where
  state : ρ.Matches env Γ (Resolver.functions (FunctionDecl.relabelAll id ρ.left decls) r)
    (Resolver.functions (FunctionDecl.relabelAll ρ.number ρ.right decls) r')
  like : ∀ σ, ρ.Tells σ (FunctionDecl.tokensAll decls) (FunctionDecl.numbersAll decls)
      (FunctionDecl.ownAssignsAll decls)
      (Resolver.functions (FunctionDecl.relabelAll id ρ.left decls) r).distances →
    FunctionsLike σ Γ (FunctionDecl.relabelAll id ρ.left decls)
      (FunctionDecl.relabelAll ρ.number ρ.right decls)

section Parts

lemma stmt_distances_relabel {g : Token → Token} {s : Stmt} {i : ExprId} (hi : i ∉ s.numbers)
    (r : Resolver) : (Resolver.stmt (s.relabel id g) r).distances[i]? = r.distances[i]? :=
  Resolver.stmt_distances _ (by rwa [numbers_relabel_stmt])

lemma stmts_distances_relabel {g : Token → Token} {ss : List Stmt} {i : ExprId}
    (hi : i ∉ Stmt.numbersAll ss) (r : Resolver) :
    (Resolver.stmts (Stmt.relabelAll id g ss) r).distances[i]? = r.distances[i]? :=
  Resolver.stmts_distances _ (by rwa [numbers_relabel_stmts])

lemma function_distances_relabel {g : Token → Token} {decl : FunctionDecl} {i : ExprId}
    (hi : i ∉ decl.numbers) (context : FunctionContext) (r : Resolver) :
    (Resolver.function context (decl.relabel id g) r).distances[i]? = r.distances[i]? :=
  Resolver.function_distances _ _ (by rwa [numbers_relabel_function])

lemma functions_distances_relabel {g : Token → Token} {decls : List FunctionDecl} {i : ExprId}
    (hi : i ∉ FunctionDecl.numbersAll decls) (r : Resolver) :
    (Resolver.functions (FunctionDecl.relabelAll id g decls) r).distances[i]? =
      r.distances[i]? :=
  Resolver.functions_distances _ (by rwa [numbers_relabel_functions])

lemma optionalStep (hρ : ρ.Proper) (e : Option Expr) (hformed : Expr.FormedOf e)
    (h : ρ.Before env Γ (Expr.occurrencesOf env e) (Expr.numbersOf e) r r')
    (hclean : (Resolver.optionalExpr (e.map (Expr.relabel id ρ.left)) r).diagnostics = []) :
    ρ.Matches env Γ (Resolver.optionalExpr (e.map (Expr.relabel id ρ.left)) r)
        (Resolver.optionalExpr (e.map (Expr.relabel ρ.number ρ.right)) r') ∧
      ∀ σ, ρ.Informs σ Γ (Expr.tokensOf e) (Expr.numbersOf e) (fun n => e.elim [] (Expr.assigns n))
          (Resolver.optionalExpr (e.map (Expr.relabel id ρ.left)) r).distances →
        OptionalLike σ Γ (e.map (Expr.relabel id ρ.left))
          (e.map (Expr.relabel ρ.number ρ.right)) := by
  cases e with
  | none => exact ⟨h.state, fun σ _ => .none⟩
  | some e =>
    have hstep := exprStep hρ e hformed h hclean
    exact ⟨hstep.state, fun σ hσ => .some (hstep.like σ hσ)⟩

/-- Only assignments to the variable itself come early in its initializer. -/
lemma Tells.informs_initializer {σ : Setting} {tokens : List Token} {numbers : List ExprId}
    {distances : Distances} {assigns : String → List ExprId} {n : String}
    (h : ρ.Tells σ tokens numbers (assigns n) distances) (hready : Γ.Ready) :
    ρ.Informs σ (Γ.enter n false) tokens numbers assigns distances where
  tokens := h.tokens
  entry := h.entry
  own := by
    intro layer hlayer m hopen
    cases Γ with
    | nil => cases hlayer
    | cons layer Γ =>
      cases hlayer
      by_cases hm : m = n
      · subst hm
        exact h.own
      · refine absurd ?_ (hready layer (List.mem_cons_self ..) m)
        simpa [Layer.enter, hm] using hopen

lemma varDeclStep (hρ : ρ.Proper) {name : Token} {initializer : Option Expr}
    (hformed : (Stmt.varDecl name initializer).Formed)
    (h : ρ.Before env Γ ((Stmt.varDecl name initializer).occurrences inner env)
      (Stmt.varDecl name initializer).numbers r r')
    (hstands : Stands inner inside Γ r) (hhost : ρ.Hosts Γ (name, some name))
    (hclean : (Resolver.stmt ((Stmt.varDecl name initializer).relabel id ρ.left) r).diagnostics =
      []) : ρ.StmtStep env Γ inner inside (.varDecl name initializer) r r' := by
  have hcovers := h.covers _ (List.mem_cons_self ..)
  have ho : ρ.Declares Γ inner (name, if inner then some name else none) :=
    .of_hosts hformed.1 hcovers hhost (fun _ hd => (Option.some.inj hd).symm) hstands.inner
  rw [Stmt.relabel, Resolver.stmt, Resolver.define_diagnostics] at hclean
  have hdeclared := h.state.declareName hρ ho (Resolver.clean_of_optionalExpr _ hclean)
  have hcontext : (r.declare (ρ.left name)).classContext = r.classContext :=
    congrArg Prod.snd (Resolver.declare_context r _)
  have hplaced : Placed (r.declare (ρ.left name)).classContext (Γ.enter name.lexeme false) := by
    rw [hcontext]
    exact ho.host.placed ho.name h.state.known h.placed false
  rw [Bindings.enter_local] at hdeclared
  obtain ⟨hstate, hlike⟩ := optionalStep hρ initializer hformed.2
    (h.next hdeclared hplaced (fun _ hu => List.mem_cons_of_mem _ hu) h.nodup (fun _ hi => hi)
      fun i _ => by rw [Resolver.declare_distances]) hclean
  rw [← Bindings.enter_local] at hstate
  refine ⟨?_, fun σ hσ => ?_⟩
  · have hdefined := hstate.defineName hρ ho
    rwa [Bindings.enter_local] at hdefined
  · have hname := ho.declaresAs hρ
    have hlayers : (Stmt.varDecl name initializer).layers Γ =
        Γ.enter (ρ.left name).lexeme true := by
      rw [hcovers.left]
      rfl
    rw [hlayers]
    refine .varDecl hname ?_
    rw [hcovers.left]
    refine hlike σ (Tells.informs_initializer (hσ.part ?_ (fun _ hi => hi) ?_ ?_) hstands.ready)
    · exact fun _ hu => List.mem_cons_of_mem _ hu
    · cases initializer with
      | none => exact fun _ hi => hi
      | some e => exact fun _ hi => hi
    · exact fun i _ => by rw [Stmt.relabel, Resolver.stmt, Resolver.define_distances]

lemma Matches.withFunction (h : ρ.Matches env Γ r r') (context : FunctionContext) :
    ρ.Matches env Γ { r with functionContext := context } { r' with functionContext := context } :=
  ⟨h.toStatic, h.left, h.right, h.clean, h.clean_right, h.distances,
    congrArg (fun c => (context, c.2)) h.context⟩

lemma Matches.withClass (h : ρ.Matches env Γ r r') (context : ClassContext) :
    ρ.Matches env Γ { r with classContext := context } { r' with classContext := context } :=
  ⟨h.toStatic, h.left, h.right, h.clean, h.clean_right, h.distances,
    congrArg (fun c => (c.1, context)) h.context⟩

/-- The statements are walked over in lockstep wherever they stand. -/
def LockstepAll (ρ : Respelling) (ss : List Stmt) : Prop :=
  ∀ env Γ inner inside r r',
    ρ.Before env Γ (Stmt.occurrencesAll inner env ss) (Stmt.numbersAll ss) r r' →
    Stands inner inside Γ r → (∀ o ∈ ss.filterMap Stmt.declares?, ρ.Hosts Γ o) →
    (Resolver.stmts (Stmt.relabelAll id ρ.left ss) r).diagnostics = [] →
    ρ.StmtsStep Γ inside ss r r'

/-- The lexemes of names that are declared directly in some statements. -/
lemma lexemes_declared {ss : List Stmt}
    (hcovers : ∀ t ∈ Stmt.tokensAll ss, (ρ.left t).lexeme = t.lexeme) :
    ((Stmt.relabelAll id ρ.left ss).filterMap Stmt.declared?).map Token.lexeme =
      (ss.filterMap Stmt.declares?).map (·.1.lexeme) := by
  rw [filterMap_declared_relabel, List.map_map]
  exact List.map_congr_left fun o ho => hcovers o.1 (declares_mem_tokens ho)

lemma Before.lexeme_left {occurrences : List (Token × Option Token)} {numbers : List ExprId}
    (h : ρ.Before env Γ occurrences numbers r r') {t : Token}
    (ht : t ∈ occurrences.map Prod.fst) : (ρ.left t).lexeme = t.lexeme := by
  obtain ⟨o, ho, rfl⟩ := List.mem_map.mp ht
  exact (h.covers o ho).left

lemma blockStep (hρ : ρ.Proper) {body : List Stmt} (ih : ρ.LockstepAll body)
    (hformed : Stmt.FormedAll (Stmt.relabelAll id ρ.left body))
    (h : ρ.Before env Γ (Stmt.occurrencesAll true env body) (Stmt.numbersAll body) r r')
    (hstands : Stands inner inside Γ r)
    (hclean : (Resolver.stmts (Stmt.relabelAll id ρ.left body) r.openScope).diagnostics = []) :
    ρ.StmtStep env Γ inner inside (.block body) r r' := by
  obtain ⟨-, hnodup⟩ := Resolver.distinct_of_clean _ hformed (List.cons_ne_nil _ _) hclean
  rw [lexemes_declared fun t ht => h.lexeme_left (by rwa [Stmt.map_fst_occurrencesAll])] at hnodup
  obtain ⟨rename, hlabel, hiff⟩ := exists_label hρ
    (fun o ho d hd => declares_own (List.mem_filterMap.mp ho).choose_spec.2 d hd) hnodup
  have hstep := ih env (Layer.empty (.names rename) :: Γ) true inside r.openScope r'.openScope
    (h.next (h.state.openScope hstands.ready hlabel) (h.placed.cons rfl rfl) (fun _ ho => ho)
      h.nodup (fun _ hi => hi) fun _ _ => rfl)
    ⟨hstands.ready.cons (by simp [Layer.empty]), rfl, hstands.inside⟩
    (by rintro o ho _ ⟨⟩; exact ⟨hlabel, hiff o ho⟩) hclean
  obtain ⟨env₁, Γ₁, hstate, htail, hnil⟩ := hstep.state
  obtain ⟨layer, rfl⟩ : ∃ layer, Γ₁ = layer :: Γ := by
    cases Γ₁ with
    | nil => cases hnil.mp rfl
    | cons layer Γ₁ => exact ⟨layer, congrArg _ htail⟩
  exact ⟨hstate.closeScope h.state.toStatic, fun σ hσ => .block (hstep.like σ hσ)⟩

/-- How the scope of a function spells its parameters and the names of its body. -/
lemma exists_functionLabel (hρ : ρ.Proper) {params : List Token} {body : List Stmt}
    (hnodup : (params.map Token.lexeme ++
      (body.filterMap Stmt.declares?).map (·.1.lexeme)).Nodup) :
    ∃ rename, ∀ layer : Layer, layer.label = .names rename →
      (layer.label = keep ∨ layer.label = ρ.exchange) ∧
      (∀ t ∈ params, ρ.Hosts (layer :: Γ) (t, some t)) ∧
      ∀ o ∈ body.filterMap Stmt.declares?, ρ.Hosts (layer :: Γ) o := by
  let names := params.map (fun t => (t, some t)) ++ body.filterMap Stmt.declares?
  have hown : ∀ o ∈ names, ∀ d, o.2 = some d → d = o.1 := by
    intro o ho d hd
    rcases List.mem_append.mp ho with ho | ho
    · obtain ⟨t, -, rfl⟩ := List.mem_map.mp ho
      exact (Option.some.inj hd).symm
    · obtain ⟨s, -, hs⟩ := List.mem_filterMap.mp ho
      exact declares_own hs d hd
  obtain ⟨rename, hlabel, hiff⟩ := exists_label hρ hown
    (by simpa [names, Function.comp_def] using hnodup)
  refine ⟨rename, fun layer hlayer => ⟨by rwa [hlayer], ?_, ?_⟩⟩
  · rintro t ht _ ⟨⟩
    rw [hlayer]
    exact ⟨hlabel, hiff _ (List.mem_append_left _ (List.mem_map_of_mem ht))⟩
  · rintro o ho _ ⟨⟩
    rw [hlayer]
    exact ⟨hlabel, hiff o (List.mem_append_right _ ho)⟩

lemma functionStep_of (hρ : ρ.Proper) {context : FunctionContext} {name : Token}
    {params : List Token} {body : List Stmt} (ih : ρ.LockstepAll body)
    (hformed : FunctionDecl.Formed ⟨name, params, body⟩)
    (hformed' : Stmt.FormedAll (Stmt.relabelAll id ρ.left body))
    (h : ρ.Before env Γ (FunctionDecl.occurrences env ⟨name, params, body⟩)
      (FunctionDecl.numbers ⟨name, params, body⟩) r r') (hready : Γ.Ready)
    (hclean : (Resolver.function context
      (FunctionDecl.relabel id ρ.left ⟨name, params, body⟩) r).diagnostics = []) :
    ρ.FunctionStep env Γ context ⟨name, params, body⟩ r r' := by
  have hname : ρ.Covers (name, none) := h.covers _ (List.mem_cons_self ..)
  have hparam : ∀ t ∈ params, ρ.Covers (t, some t) := fun t ht => h.covers _
    (List.mem_cons_of_mem _ (List.mem_append_left _ (List.mem_map_of_mem ht)))
  -- Parameters and names of the body are different from each other.
  have hlexemes : (params.map ρ.left).map Token.lexeme = params.map Token.lexeme := by
    rw [List.map_map]
    exact List.map_congr_left fun t ht => (hparam t ht).left
  have hnodup := Resolver.distinct_function (params.map ρ.left) (Stmt.relabelAll id ρ.left body)
    hformed' (List.cons_ne_nil _ _) hclean
  rw [List.map_append, hlexemes, lexemes_declared fun t ht => h.lexeme_left (by
    rw [FunctionDecl.map_fst_occurrences]
    exact List.mem_cons_of_mem _ (List.mem_append_right _ ht))] at hnodup
  obtain ⟨rename, hscope⟩ := exists_functionLabel (Γ := Γ) hρ hnodup
  -- The scope with the parameters.
  obtain ⟨hlabel, hhosts, -⟩ := hscope (Layer.empty (.names rename)) rfl
  have hstate := ((h.state.withFunction context).openScope hready hlabel).parameters hρ
    (fun t ht => ⟨hformed.1 t ht, hparam t ht, hhosts t ht, fun _ hd => (Option.some.inj hd).symm,
      fun hnil => (by cases hnil), rfl⟩) (Resolver.clean_of_stmts _ hclean)
  have hlayer : params.foldl (fun Γ t => Layers.enter t.lexeme true Γ)
      (Layer.empty (.names rename) :: Γ) = Layer.ofParameters rename (params.map ρ.left) :: Γ := by
    rw [foldl_enter, Layer.ofParameters, hlexemes]
    rfl
  rw [hlayer] at hstate
  have hother : ∀ n, (∀ t ∈ params, t.lexeme ≠ n) →
      (Layer.ofParameters rename (params.map ρ.left)).names n = none := by
    intro n hn
    have hmem : n ∉ params.map Token.lexeme := by simpa using hn
    simp only [Layer.ofParameters, hlexemes, if_neg hmem]
  -- The body.
  have hcontext := congrArg Prod.snd (Resolver.parameters_context (params.map ρ.left)
    { r with functionContext := context }.openScope)
  have hstep := ih _ _ true true _ _
    (h.next hstate (by
        refine Eq.mpr (congrArg (Placed · _) hcontext) (h.placed.cons ?_ ?_)
        · exact hother _ fun t ht => (hformed.1 t ht).ne_this
        · exact hother _ fun t ht => (hformed.1 t ht).ne_super)
      (fun _ ho => List.mem_cons_of_mem _ (List.mem_append_right _ ho)) h.nodup (fun _ hi => hi)
      fun i _ => by rw [Resolver.parameters_distances]; rfl)
    ⟨hready.cons fun n => by simp only [Layer.ofParameters]; split <;> simp, rfl, fun _ => rfl⟩
    (hscope _ rfl).2.2 hclean
  obtain ⟨env₁, Γ₁, hend, htail, hnil⟩ := hstep.state
  obtain ⟨layer, rfl⟩ : ∃ layer, Γ₁ = layer :: Γ := by
    cases Γ₁ with
    | nil => cases hnil.mp rfl
    | cons layer Γ₁ => exact ⟨layer, congrArg _ htail⟩
  constructor
  · have hback := (hend.closeScope h.state.toStatic).withFunction r.functionContext
    have hsame : r'.functionContext = r.functionContext := congrArg Prod.fst h.state.context
    rw [FunctionDecl.relabel, FunctionDecl.relabel, Resolver.function, Resolver.function, hsame]
    exact hback
  · intro σ hσ
    refine .mk hname.same (ρ := rename) ?_ (hstep.like σ (hσ.part ?_ (fun _ hi => hi)
      (fun _ hi => hi) fun _ _ => rfl))
    · rw [List.map_map, List.map_map]
      refine List.map_congr_left fun t ht => ?_
      have hspelled := (hhosts t ht).spelled (hparam t ht) rfl hρ
        fun _ hd => (Option.some.inj hd).symm
      exact hspelled.trans (congrArg rename (hparam t ht).left.symm)
    · exact fun t ht => List.mem_cons_of_mem _ (List.mem_append_right _ ht)

/-- A reference to another name is alike outside of a declaration, too. -/
lemma refers_of_enter {σ : Setting} {early : Prop} {i i' : ExprId} {n m m' : String} {b : Bool}
    (h : Refers σ (Γ.enter n b) early i i' m m') (hne : m ≠ n) : Refers σ Γ early i i' m m' := by
  cases h with
  | global hentry hname => exact .global hentry hname
  | @bound d layer hentry hlayer hready hname =>
    cases Γ with
    | nil => exact .bound hentry hlayer hready hname
    | cons head Γ =>
      cases d with
      | succ d => exact .bound hentry hlayer hready hname
      | zero =>
        obtain rfl : head.enter n b = layer := Option.some.inj hlayer
        refine .bound hentry (show (head :: Γ)[0]? = some head from rfl) ?_ hname
        simpa [Layer.enter, hne] using hready

/-- The superclass of a class is another name on both sides. -/
lemma superclassStep (hρ : ρ.Proper) {name parent : Token} {i : ExprId}
    (h : ρ.Matches env Γ r r') (hready : Γ.Ready) (hname : ρ.Covers (name, none))
    (hparent : ρ.Covers (parent, env parent.lexeme)) (hfresh : r.distances[i]? = none)
    (hclean : (r.openSuperclass (ρ.left name)
      (some ((Expr.var i parent).relabel id ρ.left))).diagnostics = []) :
    parent.lexeme ≠ name.lexeme ∧
      ρ.Matches env (Layer.superclass :: Γ)
        (r.openSuperclass (ρ.left name) (some ((Expr.var i parent).relabel id ρ.left)))
        (r'.openSuperclass (ρ.right name) (some ((Expr.var i parent).relabel ρ.number ρ.right))) ∧
      ∀ σ, ρ.Informs σ Γ [parent] [i] (fun _ => []) (r.openSuperclass (ρ.left name)
          (some ((Expr.var i parent).relabel id ρ.left))).distances →
        ExprLike σ Γ ((Expr.var i parent).relabel id ρ.left)
          ((Expr.var i parent).relabel ρ.number ρ.right) := by
  rw [Resolver.openSuperclass, Resolver.enter_diagnostics] at hclean
  have hne : (ρ.left parent).lexeme ≠ (ρ.left name).lexeme := by
    intro heq
    have hchecked := Resolver.clean_of_expr _ hclean
    simp only [Expr.relabel, Resolver.checkSuperclass, heq, if_true] at hchecked
    exact Resolver.note_diagnostics_ne _ _ _ hchecked
  have hne' : (ρ.right parent).lexeme ≠ (ρ.right name).lexeme := by
    rw [hname.same]
    by_cases hrenames : ρ.Renames (env parent.lexeme)
    · rw [hparent.renamed hrenames, hname.left]
      exact Ne.symm hname.fresh
    · rw [hparent.kept hrenames, ← hparent.left]
      exact hne
  have hcheck : r.checkSuperclass (ρ.left name) ((Expr.var i parent).relabel id ρ.left) = r := by
    simp [Expr.relabel, Resolver.checkSuperclass, hne]
  have hcheck' :
      r'.checkSuperclass (ρ.right name) ((Expr.var i parent).relabel ρ.number ρ.right) = r' := by
    simp [Expr.relabel, Resolver.checkSuperclass, hne']
  rw [hcheck] at hclean
  have hstep := varStep hρ (h.withClass .derived) hparent hfresh hclean
  refine ⟨?_, ?_, fun σ hσ => ?_⟩
  · rwa [hparent.left, hname.left] at hne
  · rw [Resolver.openSuperclass, Resolver.openSuperclass, hcheck, hcheck']
    exact hstep.state.openSuperclass hready hρ
  · rw [Resolver.openSuperclass, Resolver.enter_distances, hcheck] at hσ
    exact hstep.like σ (hσ.part (fun _ ht => ht) (fun _ hi => hi) (fun _ _ hi => hi) fun _ _ => rfl)

def FunctionsLockstep (ρ : Respelling) (decls : List FunctionDecl) : Prop :=
  ∀ env Γ r r',
    ρ.Before env Γ (FunctionDecl.occurrencesAll env decls) (FunctionDecl.numbersAll decls) r r' →
    Γ.Ready → (Resolver.functions (FunctionDecl.relabelAll id ρ.left decls) r).diagnostics = [] →
    ρ.FunctionsStep env Γ decls r r'

lemma Layer.receiver_ready (n : String) : Layer.receiver.names n ≠ some false := by
  by_cases hn : n = thisName <;> simp [Layer.receiver, Layer.enter, Layer.empty, hn]

lemma Layer.superclass_ready (n : String) : Layer.superclass.names n ≠ some false := by
  by_cases hn : n = superName <;> simp [Layer.superclass, Layer.enter, Layer.empty, hn]

/-- The methods of a class, in the scope of their receiver. -/
lemma methodsStep (hρ : ρ.Proper) {methods : List FunctionDecl} (ih : ρ.FunctionsLockstep methods)
    (h : ρ.Matches env Γ r r') (hready : Γ.Ready)
    (hplaced : Placed r.classContext (Layer.receiver :: Γ))
    (hcovers : ∀ o ∈ FunctionDecl.occurrencesAll env methods, ρ.Covers o)
    (hnodup : (FunctionDecl.numbersAll methods).Nodup)
    (hfresh : ∀ i ∈ FunctionDecl.numbersAll methods, r.distances[i]? = none)
    (hclean : (Resolver.functions (FunctionDecl.relabelAll id ρ.left methods)
      (r.openScope.enter thisName true)).diagnostics = []) :
    ρ.Matches env Γ
        (Resolver.functions (FunctionDecl.relabelAll id ρ.left methods)
          (r.openScope.enter thisName true)).closeScope
        (Resolver.functions (FunctionDecl.relabelAll ρ.number ρ.right methods)
          (r'.openScope.enter thisName true)).closeScope ∧
      ∀ σ, ρ.Tells σ (FunctionDecl.tokensAll methods) (FunctionDecl.numbersAll methods)
          (FunctionDecl.ownAssignsAll methods)
          (Resolver.functions (FunctionDecl.relabelAll id ρ.left methods)
            (r.openScope.enter thisName true)).distances →
        FunctionsLike σ (Layer.receiver :: Γ) (FunctionDecl.relabelAll id ρ.left methods)
          (FunctionDecl.relabelAll ρ.number ρ.right methods) := by
  have hstep := ih env (Layer.receiver :: Γ) (r.openScope.enter thisName true)
    (r'.openScope.enter thisName true)
    ⟨hcovers, hnodup, hfresh, hplaced, h.openReceiver hready hρ⟩
    (hready.cons Layer.receiver_ready) hclean
  exact ⟨hstep.state.closeScope h.toStatic, hstep.like⟩

/-- A class in the scopes `Γ`, once its name and its superclass are known: `Γ₁` are the scopes
around the one of the receiver. -/
structure ClassOpened (ρ : Respelling) (env : Bindings) (Γ : Layers) (inside : Bool) (name : Token)
    (superclass : Option Expr) (Γ₁ : Layers) (r r' : Resolver) : Prop where
  state : ρ.Matches env Γ₁
    (r.openSuperclass (ρ.left name) (superclass.map (Expr.relabel id ρ.left)))
    (r'.openSuperclass (ρ.right name) (superclass.map (Expr.relabel ρ.number ρ.right)))
  ready : Γ₁.Ready
  placed : Placed (r.openSuperclass (ρ.left name)
    (superclass.map (Expr.relabel id ρ.left))).classContext (Layer.receiver :: Γ₁)
  close : ∀ {x x'}, ρ.Matches env Γ₁ x x' → ρ.Matches env (Γ.enter name.lexeme true)
    (x.closeSuperclass (superclass.map (Expr.relabel id ρ.left)))
    (x'.closeSuperclass (superclass.map (Expr.relabel ρ.number ρ.right)))
  like : ∀ {σ : Setting} {methods methods'}, σ.Spelled (ρ.left name) (ρ.right name) →
    ρ.Tells σ (Expr.tokensOf superclass) (Expr.numbersOf superclass) [] (r.openSuperclass
      (ρ.left name) (superclass.map (Expr.relabel id ρ.left))).distances →
    FunctionsLike σ (Layer.receiver :: Γ₁) methods methods' →
    StmtLike σ inside Γ
      (.classDecl (ρ.left name) (superclass.map (Expr.relabel id ρ.left)) methods)
      (.classDecl (ρ.right name) (superclass.map (Expr.relabel ρ.number ρ.right)) methods')
      (Γ.enter name.lexeme true)

lemma classOpened (hρ : ρ.Proper) (inside : Bool) {name : Token} {superclass : Option Expr}
    (hvar : superclass.all Expr.isVar) (ho : ρ.Declares Γ inner (name, none)) (hready : Γ.Ready)
    (h : ρ.Matches env (Γ.enter name.lexeme true) r r') (hclass : r.classContext = .base)
    (hcovers : ∀ o ∈ Expr.occurrencesOf env superclass, ρ.Covers o)
    (hfresh : ∀ i ∈ Expr.numbersOf superclass, r.distances[i]? = none)
    (hclean : (r.openSuperclass (ρ.left name)
      (superclass.map (Expr.relabel id ρ.left))).diagnostics = []) :
    ∃ Γ₁, ρ.ClassOpened env Γ inside name superclass Γ₁ r r' := by
  have hready₁ := hready.enter name.lexeme
  have hleft : (ρ.left name).lexeme = name.lexeme := ho.covers.left
  cases superclass with
  | none =>
    refine ⟨Γ.enter name.lexeme true, h, hready₁, ?_, fun hx => hx, fun ht _ hmethods => ?_⟩
    · change Placed r.classContext _
      rw [hclass]
      exact Placed.receiver
    · rw [← hleft] at hmethods ⊢
      exact .classDecl ht (ho.declaresAs hρ) hmethods
  | some e =>
    obtain ⟨i, parent, rfl⟩ : ∃ i parent, e = .var i parent := by
      cases e with
      | var i parent => exact ⟨i, parent, rfl⟩
      | _ => cases hvar
    have hparent : ρ.Covers (parent, env parent.lexeme) := hcovers _ (List.mem_cons_self ..)
    obtain ⟨hne, hstate, hlike⟩ := superclassStep hρ h hready₁ ho.covers hparent
      (hfresh i (List.mem_cons_self ..)) hclean
    have hcontext := congrArg Prod.snd
      (Resolver.openSuperclass_context (ρ.left name) ((Expr.var i parent).relabel id ρ.left) r)
    refine ⟨Layer.superclass :: Γ.enter name.lexeme true, hstate,
      hready₁.cons Layer.superclass_ready, ?_, fun hx => hx.closeScope h.toStatic,
      fun ht hσ hmethods => ?_⟩
    · exact Eq.mpr (congrArg (Placed · _) hcontext) Placed.superclass
    · have he := hlike _ (hσ.informs hready₁ _)
      rw [← hleft] at hmethods he ⊢
      refine .subclassDecl ht (ho.declaresAs hρ) ?_ hmethods
      cases he with
      | var ht href => exact .var ht (refers_of_enter href (by rwa [hparent.left, hleft]))

lemma classStep (hρ : ρ.Proper) {name : Token} {superclass : Option Expr}
    {methods : List FunctionDecl} (ih : ρ.FunctionsLockstep methods)
    (hformed : (Stmt.classDecl name superclass methods).Formed)
    (h : ρ.Before env Γ ((Stmt.classDecl name superclass methods).occurrences inner env)
      (Stmt.classDecl name superclass methods).numbers r r')
    (hstands : Stands inner inside Γ r) (hhost : ρ.Hosts Γ (name, none))
    (hclean : (Resolver.stmt ((Stmt.classDecl name superclass methods).relabel id
      ρ.left) r).diagnostics = []) :
    ρ.StmtStep env Γ inner inside (.classDecl name superclass methods) r r' := by
  have hcovers : ρ.Covers (name, none) := h.covers _ (List.mem_cons_self ..)
  have ho : ρ.Declares Γ inner (name, none) := by
    simpa using Declares.of_hosts (q := none) hformed.1 (by simpa using hcovers) hhost
      (fun _ hd => nomatch hd) hstands.inner
  have hsame : r'.classContext = r.classContext := congrArg Prod.snd h.state.context
  obtain ⟨-, hnodup, hdisjoint⟩ := List.nodup_append.mp h.nodup
  simp only [Stmt.relabel, Resolver.stmt, Resolver.closeSuperclass_diagnostics] at hclean
  have hopened := Resolver.clean_of_functions _ hclean
  rw [Resolver.enter_diagnostics] at hopened
  have hdefined := Resolver.clean_of_openSuperclass hopened
  rw [Resolver.define_diagnostics] at hdefined
  have hdeclared := (h.state.withClass .base).declareAndDefine hρ ho hdefined
  have hbase := congrArg Prod.snd
    ((Resolver.define_context ({ r with classContext := .base }.declare (ρ.left name))
      (ρ.left name)).trans (Resolver.declare_context _ _))
  have hfresh : ∀ i ∈ (Stmt.classDecl name superclass methods).numbers,
      (({ r with classContext := .base }.declare (ρ.left name)).define
        (ρ.left name)).distances[i]? = none := by
    intro i hi
    rw [Resolver.define_distances, Resolver.declare_distances]
    exact h.fresh i hi
  obtain ⟨Γ₁, hclass⟩ := classOpened hρ inside hformed.2.1.2 ho hstands.ready hdeclared
    hbase (fun o hu => h.covers o (List.mem_cons_of_mem _ (List.mem_append_left _ hu)))
    (fun i hi => hfresh i (List.mem_append_left _ hi)) hopened
  have hnumbers : ∀ i ∈ FunctionDecl.numbersAll methods,
      i ∉ Expr.numbersOf (superclass.map (Expr.relabel id ρ.left)) := by
    intro i hi hi'
    rw [numbers_relabel_optional] at hi'
    exact hdisjoint i hi' i hi rfl
  obtain ⟨hstate, hlike⟩ := methodsStep hρ ih hclass.state hclass.ready hclass.placed
    (fun o hu => h.covers o (List.mem_cons_of_mem _ (List.mem_append_right _ hu))) hnodup
    (fun i hi => (Resolver.openSuperclass_distances _ _ (hnumbers i hi)).trans
      (hfresh i (List.mem_append_right _ hi))) hclean
  constructor
  · simp only [Stmt.relabel, Resolver.stmt, hsame]
    exact (hclass.close hstate).withClass r.classContext
  · intro σ hσ
    have hend : (Resolver.stmt ((Stmt.classDecl name superclass methods).relabel id
        ρ.left) r).distances = _ := Resolver.closeSuperclass_distances _
    rw [hend] at hσ
    refine hclass.like ⟨hσ.tokens name (List.mem_cons_self ..), hcovers.same⟩ (hσ.part ?_ ?_ ?_ ?_)
      (hlike σ (hσ.part ?_ ?_ (fun _ hi => hi) fun _ _ => rfl))
    · exact fun t ht => List.mem_cons_of_mem _ (List.mem_append_left _ ht)
    · exact fun i hi => List.mem_append_left _ hi
    · exact fun i hi => nomatch hi
    · intro i hi
      refine (functions_distances_relabel (fun hi' => hdisjoint i hi i hi' rfl) _).trans ?_
      rw [Resolver.enter_distances]
      rfl
    · exact fun t ht => List.mem_cons_of_mem _ (List.mem_append_right _ ht)
    · exact fun i hi => List.mem_append_right _ hi

lemma functionDeclStep (hρ : ρ.Proper) {decl : FunctionDecl}
    (ih : ∀ {env Γ r r'}, ρ.Before env Γ (decl.occurrences env) decl.numbers r r' → Γ.Ready →
      (Resolver.function .function (decl.relabel id ρ.left) r).diagnostics = [] →
      ρ.FunctionStep env Γ .function decl r r')
    (hname : decl.name.IsName)
    (h : ρ.Before env Γ (decl.occurrences (env.enter inner (decl.name, none))) decl.numbers r r')
    (hstands : Stands inner inside Γ r) (hhost : ρ.Hosts Γ (decl.name, none))
    (hclean : (Resolver.stmt ((Stmt.funDecl decl).relabel id ρ.left) r).diagnostics = []) :
    ρ.StmtStep env Γ inner inside (.funDecl decl) r r' := by
  have hnames : ∀ f g, (decl.relabel f g).name = g decl.name := by
    cases decl
    exact fun _ _ => rfl
  have hcovers : ρ.Covers (decl.name, none) := by
    cases decl
    exact h.covers _ (List.mem_cons_self ..)
  have ho : ρ.Declares Γ inner (decl.name, none) := by
    simpa using Declares.of_hosts (q := none) hname (by simpa using hcovers) hhost
      (fun _ hd => nomatch hd) hstands.inner
  simp only [Stmt.relabel, Resolver.stmt, hnames] at hclean
  have hdefined := Resolver.clean_of_function _ _ hclean
  rw [Resolver.define_diagnostics] at hdefined
  have hdeclared := h.state.declareAndDefine hρ ho hdefined
  have hcontext := congrArg Prod.snd ((Resolver.define_context (r.declare (ρ.left decl.name))
    (ρ.left decl.name)).trans (Resolver.declare_context _ _))
  have hstep := ih (h.next hdeclared
    (Eq.mpr (congrArg (Placed · _) hcontext) (hhost.placed hname h.state.known h.placed true))
    (fun _ hu => hu) h.nodup (fun _ hi => hi) fun i _ => by
      rw [Resolver.define_distances, Resolver.declare_distances])
    (hstands.ready.enter _) hclean
  constructor
  · simp only [Stmt.relabel, Resolver.stmt, hnames]
    exact hstep.state
  · intro σ hσ
    simp only [Stmt.relabel, Resolver.stmt, hnames] at hσ
    have hlayers : (Stmt.funDecl decl).layers Γ =
        Γ.enter (decl.relabel id ρ.left).name.lexeme true := by
      rw [hnames, hcovers.left]
      rfl
    rw [hlayers]
    refine .funDecl ?_ ?_
    · rw [hnames, hnames]
      exact ho.declaresAs hρ
    · rw [hnames, hcovers.left]
      exact hstep.like σ hσ

lemma returnStep (hρ : ρ.Proper) {keyword : Token} {value : Option Expr}
    (hformed : Expr.FormedOf value)
    (h : ρ.Before env Γ ((Stmt.ret keyword value).occurrences inner env)
      (Expr.numbersOf value) r r')
    (hstands : Stands inner inside Γ r)
    (hclean : (Resolver.stmt ((Stmt.ret keyword value).relabel id ρ.left) r).diagnostics = []) :
    ρ.StmtStep env Γ inner inside (.ret keyword value) r r' := by
  simp only [Stmt.relabel, Resolver.stmt] at hclean
  obtain ⟨-, hcontext, hcheck⟩ := Resolver.clean_of_checkReturn
    (Resolver.clean_of_optionalExpr _ hclean)
  have hcheck' : r'.checkReturn (ρ.right keyword)
      (value.map (Expr.relabel ρ.number ρ.right)).isSome = r' := by
    have hsame : r'.functionContext = r.functionContext := congrArg Prod.fst h.state.context
    refine Resolver.checkReturn_of_clean hsame ?_ (Resolver.clean_of_optionalExpr _ hclean)
    cases value <;> rfl
  rw [hcheck] at hclean
  obtain ⟨hstate, hlike⟩ := optionalStep hρ value hformed
    (h.part (fun _ ho => List.mem_cons_of_mem _ ho) h.nodup fun _ hi => hi) hclean
  obtain rfl := hstands.inside hcontext
  constructor
  · simp only [Stmt.relabel, Resolver.stmt, hcheck, hcheck']
    exact hstate
  · intro σ hσ
    simp only [Stmt.relabel, Resolver.stmt, hcheck] at hσ
    refine .ret (hlike σ ((hσ.part ?_ (fun _ hi => hi) (fun _ hi => hi) fun _ _ => rfl).informs
      hstands.ready _))
    exact fun _ ht => List.mem_cons_of_mem _ ht

/-- A branch or the body of a loop leaves names and scopes alone. -/
lemma StmtStep.undeclared {s : Stmt} (h : ρ.StmtStep env Γ inner inside s r r')
    (hs : s.declared? = none) :
    ρ.Matches env Γ (Resolver.stmt (s.relabel id ρ.left) r)
        (Resolver.stmt (s.relabel ρ.number ρ.right) r') ∧
      ∀ σ, ρ.Tells σ s.tokens s.numbers s.ownAssigns
          (Resolver.stmt (s.relabel id ρ.left) r).distances →
        StmtLike σ inside Γ (s.relabel id ρ.left) (s.relabel ρ.number ρ.right) Γ := by
  have hnone := declares_eq_none hs
  have hstate := h.state
  have hlike := h.like
  rw [Stmt.bindings, Stmt.layers, hnone] at hstate
  rw [Stmt.layers, hnone] at hlike
  exact ⟨hstate, hlike⟩

lemma Stands.of_context {r₁ : Resolver} (h : Stands inner inside Γ r)
    (hcontext : r₁.context = r.context) : Stands inner inside Γ r₁ :=
  ⟨h.ready, h.inner, fun hne => h.inside fun heq => hne ((congrArg Prod.fst hcontext).trans heq)⟩

/-- A condition with a statement that depends on it. -/
lemma conditionStep (hρ : ρ.Proper) {e : Expr} {s : Stmt} (he : e.Formed) (hs : s.declared? = none)
    (ih : ∀ {r r'}, ρ.Before env Γ (s.occurrences inner env) s.numbers r r' →
      Stands inner inside Γ r → (Resolver.stmt (s.relabel id ρ.left) r).diagnostics = [] →
      ρ.StmtStep env Γ inner inside s r r')
    (h : ρ.Before env Γ (e.occurrences env ++ s.occurrences inner env) (e.numbers ++ s.numbers)
      r r')
    (hstands : Stands inner inside Γ r)
    (hclean : (Resolver.stmt (s.relabel id ρ.left)
      (Resolver.expr (e.relabel id ρ.left) r)).diagnostics = []) :
    ρ.Matches env Γ
        (Resolver.stmt (s.relabel id ρ.left) (Resolver.expr (e.relabel id ρ.left) r))
        (Resolver.stmt (s.relabel ρ.number ρ.right)
          (Resolver.expr (e.relabel ρ.number ρ.right) r')) ∧
      ∀ σ, ρ.Tells σ (e.tokens ++ s.tokens) (e.numbers ++ s.numbers) s.ownAssigns
          (Resolver.stmt (s.relabel id ρ.left)
            (Resolver.expr (e.relabel id ρ.left) r)).distances →
        ExprLike σ Γ (e.relabel id ρ.left) (e.relabel ρ.number ρ.right) ∧
          StmtLike σ inside Γ (s.relabel id ρ.left) (s.relabel ρ.number ρ.right) Γ := by
  obtain ⟨hnodupA, hnodupB, hdisjoint⟩ := List.nodup_append.mp h.nodup
  have hA := exprStep hρ e he (h.part (fun o ho => List.mem_append_left _ ho) hnodupA
    (fun i hi => List.mem_append_left _ hi)) (Resolver.clean_of_stmt _ hclean)
  obtain ⟨hstate, hlike⟩ := (ih (h.afterExpr hA.state (fun o ho => List.mem_append_right _ ho)
    hnodupB (fun i hi => List.mem_append_right _ hi) (fun i hi hi' => hdisjoint i hi' i hi rfl))
    (hstands.of_context (Resolver.expr_context _ _)) hclean).undeclared hs
  refine ⟨hstate, fun σ hσ => ⟨hA.like σ ((hσ.part ?_ ?_ (fun _ hi => hi) ?_).informs
    hstands.ready _), hlike σ (hσ.part ?_ ?_ (fun _ hi => hi) fun _ _ => rfl)⟩⟩
  · exact fun t ht => List.mem_append_left _ ht
  · exact fun i hi => List.mem_append_left _ hi
  · exact fun i hi => stmt_distances_relabel (fun hi' => hdisjoint i hi i hi' rfl) _
  · exact fun t ht => List.mem_append_right _ ht
  · exact fun i hi => List.mem_append_right _ hi

/-- The scopes after a statement. -/
lemma layersAfter {s : Stmt} (hformed : s.Formed)
    (hhost : ∀ o, s.declares? = some o → ρ.Hosts Γ o) (hknown : ∀ layer ∈ Γ, ρ.Knows layer)
    {context : ClassContext} (hplaced : Placed context Γ) (hstands : Stands inner inside Γ r) :
    Placed context (s.layers Γ) ∧ Stands inner inside (s.layers Γ) r ∧
      (s.layers Γ).tail = Γ.tail ∧ (s.layers Γ = [] ↔ Γ = []) := by
  unfold Stmt.layers
  cases ho : s.declares? with
  | none => exact ⟨hplaced, hstands, rfl, Iff.rfl⟩
  | some o =>
    refine ⟨(hhost o ho).placed (declares_isName hformed ho) hknown hplaced true,
      ⟨hstands.ready.enter _, ?_, hstands.inside⟩, ?_, ?_⟩
    · exact hstands.inner.trans (by simp)
    · cases Γ <;> rfl
    · cases Γ <;> simp [Layers.enter]

lemma hostsAfter (s : Stmt) (h : ρ.Hosts Γ o) : ρ.Hosts (s.layers Γ) o := by
  unfold Stmt.layers
  cases s.declares? with
  | none => exact h
  | some u => exact h.enter _ _

/-- After a walk over a statement, before the next part. -/
lemma Before.afterStmt {occurrences occurrences' : List (Token × Option Token)}
    {numbers numbers' : List ExprId} {s : Stmt} {env₁ : Bindings} {Γ₁ : Layers}
    (h : ρ.Before env Γ occurrences numbers r r')
    (hstate : ρ.Matches env₁ Γ₁ (Resolver.stmt (s.relabel id ρ.left) r)
      (Resolver.stmt (s.relabel ρ.number ρ.right) r')) (hplaced : Placed r.classContext Γ₁)
    (hcovers : ∀ o ∈ occurrences', o ∈ occurrences) (hnodup : numbers'.Nodup)
    (hnumbers : ∀ i ∈ numbers', i ∈ numbers) (hdisjoint : ∀ i ∈ numbers', i ∉ s.numbers) :
    ρ.Before env₁ Γ₁ occurrences' numbers' (Resolver.stmt (s.relabel id ρ.left) r)
      (Resolver.stmt (s.relabel ρ.number ρ.right) r') := by
  have hcontext : (Resolver.stmt (s.relabel id ρ.left) r).classContext = r.classContext :=
    congrArg Prod.snd (Resolver.stmt_context _ r)
  refine h.next hstate ?_ hcovers hnodup hnumbers fun i hi =>
    stmt_distances_relabel (hdisjoint i hi) r
  rwa [hcontext]

end Parts

end Respelling

end GermanLox
