import GermanLox.Proofs.Relabel
import GermanLox.Proofs.Scope.Declared
import GermanLox.Proofs.Scope.Matching

/-!
# Walks in lockstep

If one spelling of a program passes the walk without a fault, so does the other, with the same
distances; and what the walk has recorded makes the two spellings alike as code.
-/

namespace GermanLox

section Numbers

variable (g : Token → Token)

mutual

lemma numbers_relabel_expr (e : Expr) : (e.relabel id g).numbers = e.numbers := by
  match e with
  | .literal .. => rfl
  | .grouping _ e => simp [Expr.relabel, Expr.numbers, numbers_relabel_expr e]
  | .unary _ _ _ e => simp [Expr.relabel, Expr.numbers, numbers_relabel_expr e]
  | .binary _ _ _ l r =>
    simp [Expr.relabel, Expr.numbers, numbers_relabel_expr l, numbers_relabel_expr r]
  | .logical _ _ _ l r =>
    simp [Expr.relabel, Expr.numbers, numbers_relabel_expr l, numbers_relabel_expr r]
  | .var .. => rfl
  | .assign _ _ e => simp [Expr.relabel, Expr.numbers, numbers_relabel_expr e]
  | .call _ e _ es =>
    simp [Expr.relabel, Expr.numbers, numbers_relabel_expr e, numbers_relabel_exprs es]
  | .get _ e _ => simp [Expr.relabel, Expr.numbers, numbers_relabel_expr e]
  | .set _ e _ v =>
    simp [Expr.relabel, Expr.numbers, numbers_relabel_expr e, numbers_relabel_expr v]
  | .this .. => rfl
  | .super .. => rfl

lemma numbers_relabel_exprs (es : List Expr) :
    Expr.numbersAll (Expr.relabelAll id g es) = Expr.numbersAll es := by
  match es with
  | [] => rfl
  | e :: es =>
    simp [Expr.relabelAll, Expr.numbersAll, numbers_relabel_expr e, numbers_relabel_exprs es]

end

lemma numbers_relabel_optional (e : Option Expr) :
    Expr.numbersOf (e.map (Expr.relabel id g)) = Expr.numbersOf e := by
  cases e with
  | none => rfl
  | some e => exact numbers_relabel_expr g e

mutual

lemma numbers_relabel_stmt (s : Stmt) : (s.relabel id g).numbers = s.numbers := by
  match s with
  | .expression e => exact numbers_relabel_expr g e
  | .print e => exact numbers_relabel_expr g e
  | .varDecl _ e => exact numbers_relabel_optional g e
  | .block body => exact numbers_relabel_stmts body
  | .ifElse e s none =>
    simp [Stmt.relabel, Stmt.numbers, numbers_relabel_expr, numbers_relabel_stmt s]
  | .ifElse e s (some u) =>
    simp [Stmt.relabel, Stmt.numbers, numbers_relabel_expr, numbers_relabel_stmt s,
      numbers_relabel_stmt u]
  | .loop e s =>
    simp [Stmt.relabel, Stmt.numbers, numbers_relabel_expr, numbers_relabel_stmt s]
  | .funDecl decl => exact numbers_relabel_function decl
  | .ret _ e => exact numbers_relabel_optional g e
  | .classDecl _ e decls =>
    simp [Stmt.relabel, Stmt.numbers, numbers_relabel_optional,
      numbers_relabel_functions decls]

lemma numbers_relabel_stmts (ss : List Stmt) :
    Stmt.numbersAll (Stmt.relabelAll id g ss) = Stmt.numbersAll ss := by
  match ss with
  | [] => rfl
  | s :: ss =>
    simp [Stmt.relabelAll, Stmt.numbersAll, numbers_relabel_stmt s, numbers_relabel_stmts ss]

lemma numbers_relabel_function (decl : FunctionDecl) :
    (decl.relabel id g).numbers = decl.numbers := by
  match decl with
  | ⟨_, _, body⟩ => exact numbers_relabel_stmts body

lemma numbers_relabel_functions (decls : List FunctionDecl) :
    FunctionDecl.numbersAll (FunctionDecl.relabelAll id g decls) =
      FunctionDecl.numbersAll decls := by
  match decls with
  | [] => rfl
  | decl :: decls =>
    simp [FunctionDecl.relabelAll, FunctionDecl.numbersAll, numbers_relabel_function decl,
      numbers_relabel_functions decls]

end

end Numbers

namespace Respelling

/-- Two walks before a part of a program, given by its occurrences and numbers: the occurrences are
spelled as they should be, and the numbers are new. -/
structure Before (ρ : Respelling) (env : Bindings) (Γ : Layers)
    (occurrences : List (Token × Option Token)) (numbers : List ExprId) (r r' : Resolver) :
    Prop where
  covers : ∀ o ∈ occurrences, ρ.Covers o
  nodup : numbers.Nodup
  fresh : ∀ i ∈ numbers, r.distances[i]? = none
  placed : Placed r.classContext Γ
  state : ρ.Matches env Γ r r'

/-- What a setting has to know of a part of a program, with the distances recorded for it. -/
structure Informs (ρ : Respelling) (σ : Setting) (Γ : Layers) (tokens : List Token)
    (numbers : List ExprId) (assigns : String → List ExprId) (distances : Distances) : Prop where
  tokens : ∀ t ∈ tokens, σ.tokens (ρ.left t) (ρ.right t)
  entry : ∀ i ∈ numbers, σ.entry i (ρ.number i) distances[i]?
  own : ∀ layer ∈ Γ.head?, ∀ n, layer.names n = some false → ∀ i ∈ assigns n, σ.own i

variable {ρ : Respelling} {env : Bindings} {Γ : Layers} {r r' : Resolver}

namespace Before

variable {occurrences occurrences' : List (Token × Option Token)} {numbers numbers' : List ExprId}

/-- On to a later part of the same program. -/
lemma next {env₁ : Bindings} {Γ₁ : Layers} {r₁ r₁' : Resolver}
    (h : ρ.Before env Γ occurrences numbers r r') (hstate : ρ.Matches env₁ Γ₁ r₁ r₁')
    (hplaced : Placed r₁.classContext Γ₁) (hcovers : ∀ o ∈ occurrences', o ∈ occurrences)
    (hnodup : numbers'.Nodup) (hnumbers : ∀ i ∈ numbers', i ∈ numbers)
    (hdistances : ∀ i ∈ numbers', r₁.distances[i]? = r.distances[i]?) :
    ρ.Before env₁ Γ₁ occurrences' numbers' r₁ r₁' where
  covers := fun o ho => h.covers o (hcovers o ho)
  nodup := hnodup
  fresh := fun i hi => (hdistances i hi).trans (h.fresh i (hnumbers i hi))
  placed := hplaced
  state := hstate

lemma part (h : ρ.Before env Γ occurrences numbers r r')
    (hcovers : ∀ o ∈ occurrences', o ∈ occurrences) (hnodup : numbers'.Nodup)
    (hnumbers : ∀ i ∈ numbers', i ∈ numbers) : ρ.Before env Γ occurrences' numbers' r r' :=
  h.next h.state h.placed hcovers hnodup hnumbers fun _ _ => rfl

end Before

lemma Informs.part {σ : Setting} {tokens tokens' : List Token} {numbers numbers' : List ExprId}
    {assigns assigns' : String → List ExprId} {distances distances' : Distances}
    (h : ρ.Informs σ Γ tokens numbers assigns distances) (htokens : ∀ t ∈ tokens', t ∈ tokens)
    (hnumbers : ∀ i ∈ numbers', i ∈ numbers) (hassigns : ∀ n, ∀ i ∈ assigns' n, i ∈ assigns n)
    (hdistances : ∀ i ∈ numbers', distances[i]? = distances'[i]?) :
    ρ.Informs σ Γ tokens' numbers' assigns' distances' where
  tokens := fun t ht => h.tokens t (htokens t ht)
  entry := fun i hi => by
    rw [← hdistances i hi]
    exact h.entry i (hnumbers i hi)
  own := fun layer hlayer n hn i hi => h.own layer hlayer n hn i (hassigns n i hi)

/-- Two walks over an expression: they end at the same place, and what is recorded makes its two
spellings alike. -/
structure ExprStep (ρ : Respelling) (env : Bindings) (Γ : Layers) (e : Expr) (r r' : Resolver) :
    Prop where
  state : ρ.Matches env Γ (Resolver.expr (e.relabel id ρ.left) r)
    (Resolver.expr (e.relabel ρ.number ρ.right) r')
  like : ∀ σ, ρ.Informs σ Γ e.tokens e.numbers e.assigns
      (Resolver.expr (e.relabel id ρ.left) r).distances →
    ExprLike σ Γ (e.relabel id ρ.left) (e.relabel ρ.number ρ.right)

structure ExprsStep (ρ : Respelling) (env : Bindings) (Γ : Layers) (es : List Expr)
    (r r' : Resolver) : Prop where
  state : ρ.Matches env Γ (Resolver.exprs (Expr.relabelAll id ρ.left es) r)
    (Resolver.exprs (Expr.relabelAll ρ.number ρ.right es) r')
  like : ∀ σ, ρ.Informs σ Γ (Expr.tokensAll es) (Expr.numbersAll es) (Expr.assignsAll · es)
      (Resolver.exprs (Expr.relabelAll id ρ.left es) r).distances →
    ExprsLike σ Γ (Expr.relabelAll id ρ.left es) (Expr.relabelAll ρ.number ρ.right es)

section Expressions

/-- What a walk over one part leaves of the distances of another. -/
lemma expr_distances_relabel {g : Token → Token} {e : Expr} {i : ExprId} (hi : i ∉ e.numbers)
    (r : Resolver) : (Resolver.expr (e.relabel id g) r).distances[i]? = r.distances[i]? :=
  Resolver.expr_distances _ (by rwa [numbers_relabel_expr])

lemma exprs_distances_relabel {g : Token → Token} {es : List Expr} {i : ExprId}
    (hi : i ∉ Expr.numbersAll es) (r : Resolver) :
    (Resolver.exprs (Expr.relabelAll id g es) r).distances[i]? = r.distances[i]? :=
  Resolver.exprs_distances _ (by rwa [numbers_relabel_exprs])

/-- After a walk over an expression, before the next part. -/
lemma Before.afterExpr {occurrences occurrences' : List (Token × Option Token)}
    {numbers numbers' : List ExprId} {e : Expr} (h : ρ.Before env Γ occurrences numbers r r')
    (hstate : ρ.Matches env Γ (Resolver.expr (e.relabel id ρ.left) r)
      (Resolver.expr (e.relabel ρ.number ρ.right) r'))
    (hcovers : ∀ o ∈ occurrences', o ∈ occurrences) (hnodup : numbers'.Nodup)
    (hnumbers : ∀ i ∈ numbers', i ∈ numbers) (hdisjoint : ∀ i ∈ numbers', i ∉ e.numbers) :
    ρ.Before env Γ occurrences' numbers' (Resolver.expr (e.relabel id ρ.left) r)
      (Resolver.expr (e.relabel ρ.number ρ.right) r') := by
  have hcontext : (Resolver.expr (e.relabel id ρ.left) r).classContext = r.classContext :=
    congrArg Prod.snd (Resolver.expr_context _ r)
  refine h.next hstate ?_ hcovers hnodup hnumbers fun i hi =>
    expr_distances_relabel (hdisjoint i hi) r
  rw [hcontext]
  exact h.placed

/-- References are alike if they are found in the same scope. -/
lemma Matches.refers (h : ρ.Matches env Γ r r') (hρ : ρ.Proper) {t : Token}
    (ht : ρ.Covers (t, env t.lexeme)) {i : ExprId} (hfresh : r.distances[i]? = none)
    {σ : Setting} {early : Prop}
    (hentry : σ.entry i (ρ.number i) (r.bind i (ρ.left t).lexeme).distances[i]?)
    (hearly : ∀ layer ∈ Γ.head?, layer.names t.lexeme = some false → early) :
    Refers σ Γ early i (ρ.number i) (ρ.left t).lexeme (ρ.right t).lexeme := by
  rw [ht.left] at hentry ⊢
  rw [h.entry _ hfresh] at hentry
  cases hd : Γ.find t.lexeme with
  | none =>
    rw [hd] at hentry
    exact .global hentry (h.spelled_global hρ ht hd)
  | some d =>
    rw [hd] at hentry
    obtain ⟨layer, hlayer, hsome, -⟩ := Layers.exists_of_find hd
    refine .bound hentry hlayer ?_ (h.spelled hρ ht hd hlayer)
    obtain ⟨ready, hready⟩ := Option.isSome_iff_exists.mp hsome
    cases ready with
    | true => exact .inl hready
    | false =>
      -- Only the innermost scope can have an open initializer.
      refine .inr ⟨hready, ?_⟩
      cases d with
      | zero => exact hearly layer (by rwa [List.head?_eq_getElem?]) hready
      | succ d =>
        refine absurd hready (h.ready layer ?_ _)
        refine List.mem_of_getElem? (i := d) ?_
        rwa [List.getElem?_tail]

lemma varStep (hρ : ρ.Proper) {i : ExprId} {t : Token} (h : ρ.Matches env Γ r r')
    (ht : ρ.Covers (t, env t.lexeme)) (hfresh : r.distances[i]? = none)
    (hclean : (Resolver.expr ((Expr.var i t).relabel id ρ.left) r).diagnostics = []) :
    ρ.ExprStep env Γ (.var i t) r r' := by
  have hright := h.isInitializing_right hρ ht
  have hnot : r.isInitializing (ρ.left t).lexeme = false := by
    by_contra hinit
    rw [Bool.not_eq_false] at hinit
    simp only [Expr.relabel, Resolver.expr, hinit, if_true, Resolver.bind_diagnostics] at hclean
    exact Resolver.note_diagnostics_ne _ _ _ hclean
  have hnone : ∀ layer ∈ Γ.head?, layer.names t.lexeme ≠ some false := by
    intro layer hlayer heq
    rw [ht.left, h.isInitializing_left, Option.mem_def.mp hlayer] at hnot
    simp [heq] at hnot
  rw [hnot] at hright
  constructor
  · simp only [Expr.relabel, Resolver.expr, hnot, hright, id]
    exact h.bind hρ ht i
  · intro σ hσ
    simp only [Expr.relabel, Resolver.expr, hnot] at hσ
    refine .var (hσ.tokens t (List.mem_cons_self ..)) ?_
    exact h.refers hρ ht hfresh (hσ.entry i (List.mem_cons_self ..))
      fun layer hlayer heq => hnone layer hlayer heq

/-- One expression after another. -/
lemma pairStep {a b : Expr}
    (iha : ∀ {r r'}, ρ.Before env Γ (a.occurrences env) a.numbers r r' →
      (Resolver.expr (a.relabel id ρ.left) r).diagnostics = [] → ρ.ExprStep env Γ a r r')
    (ihb : ∀ {r r'}, ρ.Before env Γ (b.occurrences env) b.numbers r r' →
      (Resolver.expr (b.relabel id ρ.left) r).diagnostics = [] → ρ.ExprStep env Γ b r r')
    (h : ρ.Before env Γ (a.occurrences env ++ b.occurrences env) (a.numbers ++ b.numbers) r r')
    (hclean : (Resolver.expr (b.relabel id ρ.left)
      (Resolver.expr (a.relabel id ρ.left) r)).diagnostics = []) :
    ρ.Matches env Γ
        (Resolver.expr (b.relabel id ρ.left) (Resolver.expr (a.relabel id ρ.left) r))
        (Resolver.expr (b.relabel ρ.number ρ.right)
          (Resolver.expr (a.relabel ρ.number ρ.right) r')) ∧
      ∀ σ, ρ.Informs σ Γ (a.tokens ++ b.tokens) (a.numbers ++ b.numbers)
          (fun n => a.assigns n ++ b.assigns n)
          (Resolver.expr (b.relabel id ρ.left)
            (Resolver.expr (a.relabel id ρ.left) r)).distances →
        ExprLike σ Γ (a.relabel id ρ.left) (a.relabel ρ.number ρ.right) ∧
          ExprLike σ Γ (b.relabel id ρ.left) (b.relabel ρ.number ρ.right) := by
  obtain ⟨hnodupA, hnodupB, hdisjoint⟩ := List.nodup_append.mp h.nodup
  have hA := iha (h.part (fun o ho => List.mem_append_left _ ho) hnodupA
    (fun i hi => List.mem_append_left _ hi)) (Resolver.clean_of_expr _ hclean)
  have hB := ihb (h.afterExpr hA.state (fun o ho => List.mem_append_right _ ho) hnodupB
    (fun i hi => List.mem_append_right _ hi) (fun i hi hi' => hdisjoint i hi' i hi rfl)) hclean
  refine ⟨hB.state, fun σ hσ => ⟨hA.like σ (hσ.part ?_ ?_ ?_ ?_), hB.like σ (hσ.part ?_ ?_ ?_ ?_)⟩⟩
  · exact fun t ht => List.mem_append_left _ ht
  · exact fun i hi => List.mem_append_left _ hi
  · exact fun n i hi => List.mem_append_left _ hi
  · exact fun i hi => expr_distances_relabel (fun hi' => hdisjoint i hi i hi' rfl) _
  · exact fun t ht => List.mem_append_right _ ht
  · exact fun i hi => List.mem_append_right _ hi
  · exact fun n i hi => List.mem_append_right _ hi
  · exact fun i hi => rfl

lemma thisStep (hρ : ρ.Proper) {i : ExprId} {t : Token} (ht : t.lexeme = thisName)
    (h : ρ.Before env Γ ((Expr.this i t).occurrences env) [i] r r')
    (hclean : (Resolver.expr ((Expr.this i t).relabel id ρ.left) r).diagnostics = []) :
    ρ.ExprStep env Γ (.this i t) r r' := by
  have hcovers : ρ.Covers (t, none) := h.covers _ (List.mem_cons_self ..)
  have hleft : (ρ.left t).lexeme = thisName := hcovers.left.trans ht
  have hright : (ρ.right t).lexeme = thisName := hcovers.same.trans hleft
  have hcontext : r'.classContext = r.classContext := congrArg Prod.snd h.state.context
  have hinside : r.classContext ≠ .outside := by
    intro houtside
    simp only [Expr.relabel, Resolver.expr, houtside] at hclean
    exact Resolver.note_diagnostics_ne _ _ _ hclean
  obtain ⟨d, hd, hlayer⟩ : ∃ d, Γ.find thisName = some d ∧ Γ[d]? = some Layer.receiver := by
    have hplaced := h.placed
    cases hclass : r.classContext with
    | outside => exact absurd hclass hinside
    | base =>
      rw [hclass] at hplaced
      exact hplaced
    | derived =>
      rw [hclass] at hplaced
      obtain ⟨d, hd, hlayer, -⟩ := hplaced
      exact ⟨d, hd, hlayer⟩
  have hwalk : Resolver.expr ((Expr.this i t).relabel id ρ.left) r = r.bind i thisName := by
    cases hclass : r.classContext with
    | outside => exact absurd hclass hinside
    | _ => simp only [Expr.relabel, Resolver.expr, hclass, hleft, id]
  have hwalk' : Resolver.expr ((Expr.this i t).relabel ρ.number ρ.right) r' =
      r'.bind (ρ.number i) thisName := by
    cases hclass : r'.classContext with
    | outside => exact absurd (hcontext.symm.trans hclass) hinside
    | _ => simp only [Expr.relabel, Resolver.expr, hclass, hright]
  constructor
  · rw [hwalk, hwalk']
    exact h.state.bindTo hρ i (h.state.findIdx_left _)
      (h.state.findIdx_right_of_ne (Ne.symm hρ.old_this) (Ne.symm hρ.new_this))
  · intro σ hσ
    have hentry := hσ.entry i (List.mem_cons_self ..)
    rw [hwalk, h.state.entry _ (h.fresh i (List.mem_cons_self ..)), hd] at hentry
    exact .this hleft hright hentry hlayer

lemma superStep (hρ : ρ.Proper) {i : ExprId} {t method : Token} (ht : t.lexeme = superName)
    (h : ρ.Before env Γ ((Expr.super i t method).occurrences env) [i] r r')
    (hclean : (Resolver.expr ((Expr.super i t method).relabel id ρ.left) r).diagnostics = []) :
    ρ.ExprStep env Γ (.super i t method) r r' := by
  have hcovers : ρ.Covers (t, none) := h.covers _ (by simp [Expr.occurrences])
  have hmethod : ρ.Covers (method, none) := h.covers _ (by simp [Expr.occurrences])
  have hleft : (ρ.left t).lexeme = superName := hcovers.left.trans ht
  have hright : (ρ.right t).lexeme = superName := hcovers.same.trans hleft
  have hcontext : r'.classContext = r.classContext := congrArg Prod.snd h.state.context
  have hclass : r.classContext = .derived := by
    cases hclass : r.classContext with
    | derived => rfl
    | outside =>
      simp only [Expr.relabel, Resolver.expr, hclass, Resolver.bind_diagnostics] at hclean
      exact absurd hclean (Resolver.note_diagnostics_ne _ _ _)
    | base =>
      simp only [Expr.relabel, Resolver.expr, hclass, Resolver.bind_diagnostics] at hclean
      exact absurd hclean (Resolver.note_diagnostics_ne _ _ _)
  have hplaced := h.placed
  rw [hclass] at hplaced
  obtain ⟨d, hthis, hlayer, hd, hlayer'⟩ := hplaced
  have hwalk : Resolver.expr ((Expr.super i t method).relabel id ρ.left) r =
      r.bind i superName := by
    simp only [Expr.relabel, Resolver.expr, hclass, hleft, id]
  have hwalk' : Resolver.expr ((Expr.super i t method).relabel ρ.number ρ.right) r' =
      r'.bind (ρ.number i) superName := by
    simp only [Expr.relabel, Resolver.expr, hcontext.trans hclass, hright]
  constructor
  · rw [hwalk, hwalk']
    exact h.state.bindTo hρ i (h.state.findIdx_left _)
      (h.state.findIdx_right_of_ne (Ne.symm hρ.old_super) (Ne.symm hρ.new_super))
  · intro σ hσ
    have hentry := hσ.entry i (List.mem_cons_self ..)
    rw [hwalk, h.state.entry _ (h.fresh i (List.mem_cons_self ..)), hd] at hentry
    exact .super hleft hentry hlayer' hlayer
      ⟨hσ.tokens method (by simp [Expr.tokens]), hmethod.same⟩ (Layers.nearest_of_find hthis)

mutual

theorem exprStep (hρ : ρ.Proper) (e : Expr) (hformed : e.Formed) {r r' : Resolver}
    (h : ρ.Before env Γ (e.occurrences env) e.numbers r r')
    (hclean : (Resolver.expr (e.relabel id ρ.left) r).diagnostics = []) :
    ρ.ExprStep env Γ e r r' := by
  match e with
  | .literal i value => exact ⟨h.state, fun σ _ => .literal⟩
  | .grouping i inner =>
    have hstep := exprStep hρ inner hformed (h.part (fun _ ho => ho) (List.nodup_cons.mp h.nodup).2
      (fun _ hi => List.mem_cons_of_mem _ hi)) hclean
    refine ⟨hstep.state, fun σ hσ => .grouping (hstep.like σ (hσ.part (fun _ ht => ht) ?_
      (fun _ _ hi => hi) fun _ _ => rfl))⟩
    exact fun _ hi => List.mem_cons_of_mem _ hi
  | .unary i op t operand =>
    have ht := h.covers (t, none) (List.mem_cons_self ..)
    have hstep := exprStep hρ operand hformed (h.part (fun _ ho => List.mem_cons_of_mem _ ho)
      (List.nodup_cons.mp h.nodup).2 (fun _ hi => List.mem_cons_of_mem _ hi)) hclean
    refine ⟨hstep.state, fun σ hσ => .unary ⟨hσ.tokens t (List.mem_cons_self ..), ht.same⟩
      (hstep.like σ (hσ.part ?_ ?_ (fun _ _ hi => hi) fun _ _ => rfl))⟩
    · exact fun _ hu => List.mem_cons_of_mem _ hu
    · exact fun _ hi => List.mem_cons_of_mem _ hi
  | .binary i op t left right =>
    have ht := h.covers (t, none) (List.mem_cons_self ..)
    obtain ⟨hstate, hlike⟩ := pairStep (fun h hc => exprStep hρ left hformed.1 h hc)
      (fun h hc => exprStep hρ right hformed.2 h hc)
      (h.part (fun _ ho => List.mem_cons_of_mem _ ho) (List.nodup_cons.mp h.nodup).2
        (fun _ hi => List.mem_cons_of_mem _ hi)) hclean
    refine ⟨hstate, fun σ hσ => ?_⟩
    obtain ⟨hl, hr⟩ := hlike σ (hσ.part (fun _ hu => List.mem_cons_of_mem _ hu)
      (fun _ hi => List.mem_cons_of_mem _ hi) (fun _ _ hi => hi) fun _ _ => rfl)
    exact .binary ⟨hσ.tokens t (List.mem_cons_self ..), ht.same⟩ hl hr
  | .logical i op t left right =>
    obtain ⟨hstate, hlike⟩ := pairStep (fun h hc => exprStep hρ left hformed.1 h hc)
      (fun h hc => exprStep hρ right hformed.2 h hc)
      (h.part (fun _ ho => List.mem_cons_of_mem _ ho) (List.nodup_cons.mp h.nodup).2
        (fun _ hi => List.mem_cons_of_mem _ hi)) hclean
    refine ⟨hstate, fun σ hσ => ?_⟩
    obtain ⟨hl, hr⟩ := hlike σ (hσ.part (fun _ hu => List.mem_cons_of_mem _ hu)
      (fun _ hi => List.mem_cons_of_mem _ hi) (fun _ _ hi => hi) fun _ _ => rfl)
    exact .logical hl hr
  | .var i name =>
    exact varStep hρ h.state (h.covers _ (List.mem_cons_self ..))
      (h.fresh i (List.mem_cons_self ..)) hclean
  | .assign i name value =>
    have ht : ρ.Covers (name, env name.lexeme) := h.covers _ (List.mem_cons_self ..)
    obtain ⟨hi, hnodup⟩ := List.nodup_cons.mp h.nodup
    have hvalue : (Resolver.expr (value.relabel id ρ.left) r).diagnostics = [] := by
      simpa only [Expr.relabel, Resolver.expr, Resolver.bind_diagnostics] using hclean
    have hstep := exprStep hρ value hformed.2 (h.part (fun _ ho => List.mem_cons_of_mem _ ho)
      hnodup (fun _ hi => List.mem_cons_of_mem _ hi)) hvalue
    refine ⟨hstep.state.bind hρ ht i, fun σ hσ => ?_⟩
    refine .assign (hσ.tokens name (List.mem_cons_self ..)) ?_
      (by rw [ht.left]; exact hformed.1.ne_this) (by rw [ht.left]; exact hformed.1.ne_super)
      (hstep.like σ (hσ.part ?_ ?_ ?_ ?_))
    · refine hstep.state.refers hρ ht ?_ (hσ.entry i (List.mem_cons_self ..)) ?_
      · exact (expr_distances_relabel hi r).trans (h.fresh i (List.mem_cons_self ..))
      · intro layer hlayer hopen
        exact hσ.own layer hlayer _ hopen i (by simp [Expr.assigns])
    · exact fun _ hu => List.mem_cons_of_mem _ hu
    · exact fun _ hj => List.mem_cons_of_mem _ hj
    · exact fun _ _ hj => List.mem_append_right _ hj
    · intro j hj
      have hne : j ≠ i := fun heq => hi (heq ▸ hj)
      exact Resolver.bind_distances_of_ne _ _ _ hne
  | .call i callee paren arguments =>
    have ht := h.covers (paren, none) (List.mem_cons_self ..)
    obtain ⟨-, hnodup⟩ := List.nodup_cons.mp h.nodup
    obtain ⟨hnodupA, hnodupB, hdisjoint⟩ := List.nodup_append.mp hnodup
    have hA := exprStep hρ callee hformed.1
      (h.part (fun _ ho => List.mem_cons_of_mem _ (List.mem_append_left _ ho)) hnodupA
        (fun _ hi => List.mem_cons_of_mem _ (List.mem_append_left _ hi)))
      (Resolver.clean_of_exprs _ hclean)
    have hB := exprsStep hρ arguments hformed.2
      (h.afterExpr hA.state (fun _ ho => List.mem_cons_of_mem _ (List.mem_append_right _ ho))
        hnodupB (fun _ hi => List.mem_cons_of_mem _ (List.mem_append_right _ hi))
        (fun i hi hi' => hdisjoint i hi' i hi rfl)) hclean
    refine ⟨hB.state, fun σ hσ => .call (hA.like σ (hσ.part ?_ ?_ ?_ ?_))
      ⟨hσ.tokens paren (List.mem_cons_self ..), ht.same⟩ (hB.like σ (hσ.part ?_ ?_ ?_ ?_))⟩
    · exact fun _ hu => List.mem_cons_of_mem _ (List.mem_append_left _ hu)
    · exact fun _ hi => List.mem_cons_of_mem _ (List.mem_append_left _ hi)
    · exact fun _ _ hi => List.mem_append_left _ hi
    · exact fun i hi => exprs_distances_relabel (fun hi' => hdisjoint i hi i hi' rfl) _
    · exact fun _ hu => List.mem_cons_of_mem _ (List.mem_append_right _ hu)
    · exact fun _ hi => List.mem_cons_of_mem _ (List.mem_append_right _ hi)
    · exact fun _ _ hi => List.mem_append_right _ hi
    · exact fun _ _ => rfl
  | .get i object name =>
    have ht := h.covers (name, none) (List.mem_cons_self ..)
    have hstep := exprStep hρ object hformed (h.part (fun _ ho => List.mem_cons_of_mem _ ho)
      (List.nodup_cons.mp h.nodup).2 (fun _ hi => List.mem_cons_of_mem _ hi)) hclean
    refine ⟨hstep.state, fun σ hσ => .get (hstep.like σ (hσ.part ?_ ?_ (fun _ _ hi => hi)
      fun _ _ => rfl)) ⟨hσ.tokens name (List.mem_cons_self ..), ht.same⟩⟩
    · exact fun _ hu => List.mem_cons_of_mem _ hu
    · exact fun _ hi => List.mem_cons_of_mem _ hi
  | .set i object name value =>
    -- The value is walked over first.
    have ht := h.covers (name, none) (List.mem_cons_self ..)
    have hcomm {α : Type} {x : α} {xs ys : List α} (hx : x ∈ ys ++ xs) : x ∈ xs ++ ys :=
      List.mem_append.mpr (List.mem_append.mp hx).symm
    obtain ⟨hstate, hlike⟩ := pairStep (fun h hc => exprStep hρ value hformed.2 h hc)
      (fun h hc => exprStep hρ object hformed.1 h hc)
      (h.part (fun _ ho => List.mem_cons_of_mem _ (hcomm ho))
        (List.perm_append_comm.nodup_iff.mp (List.nodup_cons.mp h.nodup).2)
        (fun _ hi => List.mem_cons_of_mem _ (hcomm hi))) hclean
    refine ⟨hstate, fun σ hσ => ?_⟩
    obtain ⟨hv, ho⟩ := hlike σ (hσ.part (fun _ hu => List.mem_cons_of_mem _ (hcomm hu))
      (fun _ hi => List.mem_cons_of_mem _ (hcomm hi)) (fun _ _ hi => hcomm hi) fun _ _ => rfl)
    exact .set ho ⟨hσ.tokens name (List.mem_cons_self ..), ht.same⟩ hv
  | .this i keyword => exact thisStep hρ hformed h hclean
  | .super i keyword method => exact superStep hρ hformed h hclean

theorem exprsStep (hρ : ρ.Proper) (es : List Expr) (hformed : Expr.FormedAll es)
    {r r' : Resolver} (h : ρ.Before env Γ (Expr.occurrencesAll env es) (Expr.numbersAll es) r r')
    (hclean : (Resolver.exprs (Expr.relabelAll id ρ.left es) r).diagnostics = []) :
    ρ.ExprsStep env Γ es r r' := by
  match es with
  | [] => exact ⟨h.state, fun σ _ => .nil⟩
  | e :: es =>
    obtain ⟨hnodupA, hnodupB, hdisjoint⟩ := List.nodup_append.mp h.nodup
    have hA := exprStep hρ e hformed.1 (h.part (fun _ ho => List.mem_append_left _ ho) hnodupA
      (fun _ hi => List.mem_append_left _ hi)) (Resolver.clean_of_exprs _ hclean)
    have hB := exprsStep hρ es hformed.2
      (h.afterExpr hA.state (fun _ ho => List.mem_append_right _ ho) hnodupB
        (fun _ hi => List.mem_append_right _ hi) (fun i hi hi' => hdisjoint i hi' i hi rfl)) hclean
    refine ⟨hB.state, fun σ hσ => .cons (hA.like σ (hσ.part ?_ ?_ ?_ ?_))
      (hB.like σ (hσ.part ?_ ?_ ?_ ?_))⟩
    · exact fun _ hu => List.mem_append_left _ hu
    · exact fun _ hi => List.mem_append_left _ hi
    · exact fun _ _ hi => List.mem_append_left _ hi
    · exact fun i hi => exprs_distances_relabel (fun hi' => hdisjoint i hi i hi' rfl) _
    · exact fun _ hu => List.mem_append_right _ hu
    · exact fun _ hi => List.mem_append_right _ hi
    · exact fun _ _ hi => List.mem_append_right _ hi
    · exact fun _ _ => rfl

end

end Expressions

end Respelling

end GermanLox
