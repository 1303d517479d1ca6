import GermanLox.Proofs.Run.Objects

/-!
# Code alike runs alike

With any amount of fuel, code alike on machines alike has outcomes alike. The proof is by induction
on the fuel; every function of the evaluator takes one step to smaller fuel.
-/

namespace GermanLox

section Operators

variable {E : Setting} {w : Labels} {m m' : Machine} {t t' : Token} {l l' r r' v v' : Value}

lemma UnaryOp.apply_like (op : UnaryOp) (h : Agree E w m m') (ht : E.Spelled t t')
    (hv : ValueLike E w m.store v v') :
    OutcomeLike E w m (ValueLike E) (op.apply t v m) (op.apply t' v' m') := by
  cases op with
  | not =>
    simp only [UnaryOp.apply, hv.isTruthy_eq]
    exact .pure h .bool
  | negate =>
    cases hv with
    | number => exact .pure h .number
    | _ => exact h.fail ht

lemma arithmetic_like {f : Float → Float → Value} (h : Agree E w m m') (ht : E.Spelled t t')
    (hf : ∀ x y, ValueLike E w m.store (f x y) (f x y)) (hl : ValueLike E w m.store l l')
    (hr : ValueLike E w m.store r r') :
    OutcomeLike E w m (ValueLike E) (arithmetic f t l r m) (arithmetic f t' l' r' m') := by
  cases hl with
  | number =>
    cases hr with
    | number => exact .pure h (hf _ _)
    | _ => exact h.fail ht
  | _ => exact h.fail ht

lemma addition_like (h : Agree E w m m') (ht : E.Spelled t t') (hl : ValueLike E w m.store l l')
    (hr : ValueLike E w m.store r r') :
    OutcomeLike E w m (ValueLike E) (addition t l r m) (addition t' l' r' m') := by
  cases hl with
  | number =>
    cases hr with
    | number => exact .pure h .number
    | _ => exact h.fail ht
  | string =>
    cases hr with
    | string => exact .pure h .string
    | _ => exact h.fail ht
  | _ => exact h.fail ht

lemma BinaryOp.apply_like (op : BinaryOp) (h : Agree E w m m') (ht : E.Spelled t t')
    (hl : ValueLike E w m.store l l') (hr : ValueLike E w m.store r r') :
    OutcomeLike E w m (ValueLike E) (op.apply t l r m) (op.apply t' l' r' m') := by
  cases op with
  | equal =>
    simp only [BinaryOp.apply, hl.equals_eq hr]
    exact .pure h .bool
  | notEqual =>
    simp only [BinaryOp.apply, hl.equals_eq hr]
    exact .pure h .bool
  | add => exact addition_like h ht hl hr
  | greater => exact arithmetic_like h ht (fun _ _ => .bool) hl hr
  | greaterEqual => exact arithmetic_like h ht (fun _ _ => .bool) hl hr
  | less => exact arithmetic_like h ht (fun _ _ => .bool) hl hr
  | lessEqual => exact arithmetic_like h ht (fun _ _ => .bool) hl hr
  | subtract => exact arithmetic_like h ht (fun _ _ => .number) hl hr
  | multiply => exact arithmetic_like h ht (fun _ _ => .number) hl hr
  | divide => exact arithmetic_like h ht (fun _ _ => .number) hl hr

lemma LogicalOp.isSettledBy_eq {s : Store} (op : LogicalOp) (hv : ValueLike E w s v v') :
    op.isSettledBy v' = op.isSettledBy v := by
  cases op <;> simp only [LogicalOp.isSettledBy, hv.isTruthy_eq]

lemma ValueLike.ofLiteral {s : Store} (value : Literal) :
    ValueLike E w s (.ofLiteral value) (.ofLiteral value) := by
  cases value with
  | nil => exact .nil
  | bool => exact .bool
  | number => exact .number
  | string => exact .string

end Operators

lemma Aligned.after {w w₁ : Labels} {m m₁ : Machine} {Γ : Layers}
    (h : Aligned w m.store m.current Γ) (hgrow : Grows w m.store w₁ m₁.store)
    (hcurrent : m₁.current = m.current) : Aligned w₁ m₁.store m₁.current Γ := by
  rw [hcurrent]
  exact h.grow hgrow

/-- With so much fuel, code alike runs alike. -/
structure RunsAlike (E : Setting) (host : Host) (fuel : Nat) : Prop where
  evaluate : ∀ {σ Γ e e' w m m'}, σ.Fits E → ExprLike σ Γ e e' → Agree E w m m' →
    Aligned w m.store m.current Γ →
    OutcomeLike E w m (ValueLike E) (evaluate host fuel e m) (evaluate host fuel e' m')
  evaluateAll : ∀ {σ Γ es es' w m m'}, σ.Fits E → ExprsLike σ Γ es es' → Agree E w m m' →
    Aligned w m.store m.current Γ →
    OutcomeLike E w m (fun w₁ s₁ => List.Forall₂ (ValueLike E w₁ s₁))
      (evaluateAll host fuel es m) (evaluateAll host fuel es' m')
  evaluateOptional : ∀ {σ Γ e e' w m m'}, σ.Fits E → OptionalLike σ Γ e e' → Agree E w m m' →
    Aligned w m.store m.current Γ →
    OutcomeLike E w m (ValueLike E) (evaluateOptional host fuel e m)
      (evaluateOptional host fuel e' m')
  evaluateSuperclass : ∀ {σ Γ t t' e e' w m m'}, σ.Fits E → σ.Spelled t t' →
    OptionalLike σ Γ e e' → Agree E w m m' → Aligned w m.store m.current Γ →
    OutcomeLike E w m (fun w₁ s₁ c c' => Option.Rel (ClassLike E w₁ s₁) c c' ∧ c.isSome = e.isSome)
      (evaluateSuperclass host fuel t e m) (evaluateSuperclass host fuel t' e' m')
  call : ∀ {f f' args args' w m m'}, CallableLike E w m.store f f' →
    List.Forall₂ (ValueLike E w m.store) args args' → args.length = f.arity → Agree E w m m' →
    OutcomeLike E w m (ValueLike E) (call host fuel f args m) (call host fuel f' args' m')
  execute : ∀ {σ inside Γ Γ₁ s s' w m m'}, σ.Fits E → StmtLike σ inside Γ s s' Γ₁ →
    Agree E w m m' → Aligned w m.store m.current Γ →
    OutcomeLike E w m (CompletionLike E inside fun w₁ s₁ => Aligned w₁ s₁ m.current Γ₁)
      (execute host fuel s m) (execute host fuel s' m')
  executeAll : ∀ {σ inside Γ ss ss' w m m'}, σ.Fits E → StmtsLike σ inside Γ ss ss' →
    Agree E w m m' → Aligned w m.store m.current Γ →
    OutcomeLike E w m (CompletionLike E inside fun _ _ => True)
      (executeAll host fuel ss m) (executeAll host fuel ss' m')
  executeLoop : ∀ {σ inside Γ e e' s s' w m m'}, σ.Fits E → ExprLike σ Γ e e' →
    StmtLike σ inside Γ s s' Γ → Agree E w m m' → Aligned w m.store m.current Γ →
    OutcomeLike E w m (CompletionLike E inside fun w₁ s₁ => Aligned w₁ s₁ m.current Γ)
      (executeLoop host fuel e s m) (executeLoop host fuel e' s' m')

lemma Setting.Fits.spelled {σ E : Setting} (h : σ.Fits E) {t t' : Token} (ht : σ.Spelled t t') :
    E.Spelled t t' :=
  ⟨h.tokens t t' ht.1, ht.2⟩

lemma Refers.widen {σ E : Setting} {Γ : Layers} {early : Prop} {i i' : ExprId} {n n' : String}
    (h : Refers σ Γ early i i' n n') (hE : σ.Fits E) : Refers E Γ early i i' n n' := by
  cases h with
  | global hentry hname => exact .global (hE.entry _ _ _ hentry) hname
  | bound hentry hlayer hready hname => exact .bound (hE.entry _ _ _ hentry) hlayer hready hname

namespace RunsAlike

variable {E : Setting} {host : Host}

lemma zero : RunsAlike E host 0 where
  evaluate := fun _ _ h _ => h.outOfFuel
  evaluateAll := fun _ _ h _ => h.outOfFuel
  evaluateOptional := fun _ _ h _ => h.outOfFuel
  evaluateSuperclass := fun _ _ _ h _ => h.outOfFuel
  call := fun _ _ _ h => h.outOfFuel
  execute := fun _ _ h _ => h.outOfFuel
  executeAll := fun _ _ h _ => h.outOfFuel
  executeLoop := fun _ _ _ h _ => h.outOfFuel

variable {fuel : Nat} {σ : Setting} {Γ : Layers} {w : Labels} {m m' : Machine}

lemma evaluate_succ (ih : RunsAlike E host fuel) (hfits : σ.Fits E) {e e' : Expr}
    (he : ExprLike σ Γ e e') (h : Agree E w m m') (halign : Aligned w m.store m.current Γ) :
    OutcomeLike E w m (ValueLike E) (GermanLox.evaluate host (fuel + 1) e m)
      (GermanLox.evaluate host (fuel + 1) e' m') := by
  cases he with
  | literal =>
    simp only [GermanLox.evaluate]
    exact .pure h (.ofLiteral _)
  | grouping he =>
    simp only [GermanLox.evaluate]
    exact ih.evaluate hfits he h halign
  | unary ht he =>
    simp only [GermanLox.evaluate]
    refine (ih.evaluate hfits he h halign).bind ?_
    intro w₁ m₁ m₁' v v' _ _ h₁ hv
    exact UnaryOp.apply_like _ h₁ (hfits.spelled ht) hv
  | binary ht hl hr =>
    simp only [GermanLox.evaluate]
    refine (ih.evaluate hfits hl h halign).bind ?_
    intro w₁ m₁ m₁' l l' hgrow₁ hcurrent₁ h₁ hl
    refine (ih.evaluate hfits hr h₁ (halign.after hgrow₁ hcurrent₁)).bind ?_
    intro w₂ m₂ m₂' r r' hgrow₂ _ h₂ hr
    exact BinaryOp.apply_like _ h₂ (hfits.spelled ht) (hl.grow hgrow₂) hr
  | logical hl hr =>
    simp only [GermanLox.evaluate]
    refine (ih.evaluate hfits hl h halign).bind ?_
    intro w₁ m₁ m₁' l l' hgrow₁ hcurrent₁ h₁ hl
    simp only [LogicalOp.isSettledBy_eq _ hl]
    split
    · exact .pure h₁ hl
    · exact ih.evaluate hfits hr h₁ (halign.after hgrow₁ hcurrent₁)
  | var ht href =>
    simp only [GermanLox.evaluate]
    exact h.lookUp halign (hfits.tokens _ _ ht) (href.widen hfits)
  | assign ht href hthis hsuper he =>
    simp only [GermanLox.evaluate]
    refine (ih.evaluate hfits he h halign).bind ?_
    intro w₁ m₁ m₁' v v' hgrow₁ hcurrent₁ h₁ hv
    refine (h₁.assign (halign.after hgrow₁ hcurrent₁) (hfits.tokens _ _ ht) (href.widen hfits)
      hthis hsuper hv).bind ?_
    intro w₂ m₂ m₂' _ _ hgrow₂ _ h₂ _
    exact .pure h₂ (hv.grow hgrow₂)
  | call he ht hes =>
    simp only [GermanLox.evaluate]
    refine (ih.evaluate hfits he h halign).bind ?_
    intro w₁ m₁ m₁' f f' hgrow₁ hcurrent₁ h₁ hf
    refine (ih.evaluateAll hfits hes h₁ (halign.after hgrow₁ hcurrent₁)).bind ?_
    intro w₂ m₂ m₂' args args' hgrow₂ _ h₂ hargs
    obtain ⟨hn, hn'⟩ | ⟨c, c', hn, hn', hc⟩ := (hf.grow hgrow₂).callable?.none_or_some
    · simp only [hn, hn']
      exact h₂.fail (hfits.spelled ht)
    · simp only [hn, hn', hc.arity_eq, ← hargs.length_eq]
      split
      · rename_i harity
        exact ih.call hc hargs harity h₂
      · exact h₂.fail (hfits.spelled ht)
  | get he ht =>
    simp only [GermanLox.evaluate]
    refine (ih.evaluate hfits he h halign).bind ?_
    intro w₁ m₁ m₁' v v' _ _ h₁ hv
    cases hv with
    | ofInstance => exact h₁.property (hfits.spelled ht) _
    | _ => exact h₁.fail (hfits.spelled ht)
  | set ho ht he =>
    simp only [GermanLox.evaluate]
    refine (ih.evaluate hfits ho h halign).bind ?_
    intro w₁ m₁ m₁' v v' hgrow₁ hcurrent₁ h₁ hv
    cases hv with
    | @ofInstance i =>
      refine (ih.evaluate hfits he h₁ (halign.after hgrow₁ hcurrent₁)).bind ?_
      intro w₂ m₂ m₂' v v' _ _ h₂ hv
      rw [ht.2]
      refine (h₂.setField hv i _).bind ?_
      intro w₃ m₃ m₃' _ _ hgrow₃ _ h₃ _
      exact .pure h₃ (hv.grow hgrow₃)
    | _ => exact h₁.fail (hfits.spelled ht)
  | this ht ht' hentry hlayer =>
    simp only [GermanLox.evaluate]
    exact h.receiver halign ht ht' (hfits.entry _ _ _ hentry) hlayer
  | super _ hentry hlayer hinner hmethod =>
    simp only [GermanLox.evaluate]
    exact h.superMethod halign (hfits.entry _ _ _ hentry) hlayer hinner (hfits.spelled hmethod)

lemma evaluateAll_succ (ih : RunsAlike E host fuel) (hfits : σ.Fits E) {es es' : List Expr}
    (hes : ExprsLike σ Γ es es') (h : Agree E w m m') (halign : Aligned w m.store m.current Γ) :
    OutcomeLike E w m (fun w₁ s₁ => List.Forall₂ (ValueLike E w₁ s₁))
      (GermanLox.evaluateAll host (fuel + 1) es m)
      (GermanLox.evaluateAll host (fuel + 1) es' m') := by
  cases hes with
  | nil =>
    simp only [GermanLox.evaluateAll]
    exact .pure h .nil
  | cons he hes =>
    simp only [GermanLox.evaluateAll]
    refine (ih.evaluate hfits he h halign).bind ?_
    intro w₁ m₁ m₁' v v' hgrow₁ hcurrent₁ h₁ hv
    refine (ih.evaluateAll hfits hes h₁ (halign.after hgrow₁ hcurrent₁)).bind ?_
    intro w₂ m₂ m₂' vs vs' hgrow₂ _ h₂ hvs
    exact .pure h₂ (.cons (hv.grow hgrow₂) hvs)

lemma evaluateOptional_succ (ih : RunsAlike E host fuel) (hfits : σ.Fits E) {e e' : Option Expr}
    (he : OptionalLike σ Γ e e') (h : Agree E w m m') (halign : Aligned w m.store m.current Γ) :
    OutcomeLike E w m (ValueLike E) (GermanLox.evaluateOptional host (fuel + 1) e m)
      (GermanLox.evaluateOptional host (fuel + 1) e' m') := by
  cases he with
  | none =>
    simp only [GermanLox.evaluateOptional]
    exact .pure h .nil
  | some he =>
    simp only [GermanLox.evaluateOptional]
    exact ih.evaluate hfits he h halign

lemma superclassToken_like {e e' : Expr} {t t' : Token} (he : ExprLike σ Γ e e')
    (ht : σ.tokens t t') : σ.tokens (superclassToken t e) (superclassToken t' e') := by
  cases he with
  | var hname => exact hname
  | _ => exact ht

lemma evaluateSuperclass_succ (ih : RunsAlike E host fuel) (hfits : σ.Fits E) {t t' : Token}
    {e e' : Option Expr} (ht : σ.Spelled t t') (he : OptionalLike σ Γ e e') (h : Agree E w m m')
    (halign : Aligned w m.store m.current Γ) :
    OutcomeLike E w m
      (fun w₁ s₁ c c' => Option.Rel (ClassLike E w₁ s₁) c c' ∧ c.isSome = e.isSome)
      (GermanLox.evaluateSuperclass host (fuel + 1) t e m)
      (GermanLox.evaluateSuperclass host (fuel + 1) t' e' m') := by
  cases he with
  | none =>
    simp only [GermanLox.evaluateSuperclass]
    exact .pure h ⟨.none, rfl⟩
  | some he =>
    simp only [GermanLox.evaluateSuperclass]
    refine (ih.evaluate hfits he h halign).bind ?_
    intro w₁ m₁ m₁' v v' _ _ h₁ hv
    -- The token to blame may be spelled anew, but this message does not show it.
    have htoken := hfits.tokens _ _ (superclassToken_like he ht.1)
    cases hv with
    | ofClass hc => exact .pure h₁ ⟨.some hc, rfl⟩
    | _ => exact .error (Grows.refl w₁ m₁.store) rfl h₁ (.fault htoken rfl rfl)

/-- The parameters with their arguments. -/
lemma zip_like {s : Store} {names names' : List String} {ρ : Equiv.Perm String}
    {args args' : List Value} (hnames : names' = names.map ρ)
    (hargs : List.Forall₂ (ValueLike E w s) args args') :
    List.Forall₂ (fun b b' : String × Value => b'.1 = ρ b.1 ∧ ValueLike E w s b.2 b'.2)
      (names.zip args) (names'.zip args') := by
  subst hnames
  induction hargs generalizing names with
  | nil => simp
  | cons hv _ ih =>
    cases names with
    | nil => exact .nil
    | cons n names => exact .cons ⟨rfl, hv⟩ ih

lemma callClosure_succ (ih : RunsAlike E host fuel) {c c' : Closure} {args args' : List Value}
    (hc : FunctionValueLike E w m.store c c')
    (hargs : List.Forall₂ (ValueLike E w m.store) args args') (harity : args.length = c.arity)
    (h : Agree E w m m') :
    OutcomeLike E w m (ValueLike E) (GermanLox.call host (fuel + 1) (.closure c) args m)
      (GermanLox.call host (fuel + 1) (.closure c') args' m') := by
  obtain ⟨σ, Γ, hfits, halign, hcode⟩ := hc.code
  obtain ⟨ρ, hparams, hbody⟩ := hcode.body
  simp only [GermanLox.call, hc.frame]
  refine (h.newFrame c.frame (.names ρ)).bind ?_
  rintro w₁ m₁ m₁' _ f hgrow₁ - h₁ ⟨hw₁, hstore₁, hf, rfl⟩
  have halign₁ := halign.newFrame (.names ρ)
  rw [← hw₁, ← hstore₁, ← hf] at halign₁
  have hpairs := zip_like hparams (hargs.imp fun _ _ hv => hv.grow hgrow₁)
  refine (h₁.defineAll halign₁.1 halign₁.2.1 hpairs).bind ?_
  intro w₂ m₂ m₂' _ _ hgrow₂ _ h₂ hbound
  have hnames : ((c.decl.params.map Token.lexeme).zip args).map Prod.fst =
      c.decl.params.map Token.lexeme := by
    refine List.map_fst_zip ?_
    rw [List.length_map, harity]
    exact Nat.le_refl _
  rw [hnames] at hbound
  have halign₂ := (halign₁.grow hgrow₂).parameters hbound
  refine (h₂.within fun hin => ih.executeAll hfits hbody hin halign₂).bind ?_
  intro w₃ m₃ m₃' x x' hgrow₃ _ h₃ hx
  exact h₃.callResult (hc.grow ((hgrow₁.trans hgrow₂).trans hgrow₃)) hx

lemma call_succ (ih : RunsAlike E host fuel) {f f' : Callable} {args args' : List Value}
    (hf : CallableLike E w m.store f f')
    (hargs : List.Forall₂ (ValueLike E w m.store) args args') (harity : args.length = f.arity)
    (h : Agree E w m m') :
    OutcomeLike E w m (ValueLike E) (GermanLox.call host (fuel + 1) f args m)
      (GermanLox.call host (fuel + 1) f' args' m') := by
  cases hf with
  | closure hc => exact ih.callClosure_succ hc hargs harity h
  | @builtin b =>
    cases b
    simp only [GermanLox.call]
    exact h.readClock host
  | @ofClass c c' hc =>
    simp only [GermanLox.call]
    refine (h.newInstance hc).bind ?_
    rintro w₁ m₁ m₁' _ i hgrow₁ - h₁ rfl
    have hinit := (hc.grow hgrow₁).findMethod? initializerName
    obtain ⟨hn, hn'⟩ | ⟨init, init', hn, hn', hm⟩ := hinit.none_or_some
    · simp only [Class.initializer?, hn, hn']
      exact .pure h₁ .ofInstance
    · simp only [Class.initializer?, hn, hn']
      refine (h₁.bind hm i).bind ?_
      rintro w₂ m₂ m₂' b b' hgrow₂ - h₂ ⟨hb, hdecl⟩
      have hgrow := hgrow₁.trans hgrow₂
      have hlength : args.length = b.arity := by
        simp only [harity, Callable.arity, Class.arity, Class.initializer?, hn, Closure.arity,
          hdecl]
      refine (ih.call (.closure hb) (hargs.imp fun _ _ hv => hv.grow hgrow) hlength h₂).bind ?_
      exact fun _ _ _ _ _ _ _ h₃ _ => .pure h₃ .ofInstance

lemma classDecl_succ (ih : RunsAlike E host fuel) (hfits : σ.Fits E) {t t' : Token}
    {e e' : Option Expr} {methods methods' : List FunctionDecl} {inside : Bool}
    (ht : σ.Spelled t t') (hname : Γ.DeclaresAs t.lexeme t'.lexeme) (he : OptionalLike σ Γ e e')
    (hmethods : FunctionsLike σ (Layer.receiver :: Layers.inherited e (Γ.enter t.lexeme true))
      methods methods')
    (h : Agree E w m m') (halign : Aligned w m.store m.current Γ) :
    OutcomeLike E w m (CompletionLike E inside fun w₁ s₁ =>
        Aligned w₁ s₁ m.current (Γ.enter t.lexeme true))
      (GermanLox.execute host (fuel + 1) (.classDecl t e methods) m)
      (GermanLox.execute host (fuel + 1) (.classDecl t' e' methods') m') := by
  simp only [GermanLox.execute]
  refine (ih.evaluateSuperclass hfits ht he h halign).bind ?_
  rintro w₁ m₁ m₁' parent parent' hgrow₁ hcurrent₁ h₁ ⟨hparent, hsome⟩
  have hinherited : Layers.inherited parent = Layers.inherited e := by
    cases parent <;> cases e <;> simp at hsome <;> rfl
  rw [← hinherited] at hmethods
  refine (h₁.declareClass hfits (halign.after hgrow₁ hcurrent₁) ht.2 hname hparent hmethods).bind ?_
  intro w₂ m₂ m₂' _ _ _ _ h₂ halign₂
  rw [hcurrent₁] at halign₂
  exact .pure h₂ (.normal halign₂)

lemma execute_succ (ih : RunsAlike E host fuel) (hfits : σ.Fits E) {inside : Bool} {Γ₁ : Layers}
    {s s' : Stmt} (hs : StmtLike σ inside Γ s s' Γ₁) (h : Agree E w m m')
    (halign : Aligned w m.store m.current Γ) :
    OutcomeLike E w m (CompletionLike E inside fun w₁ s₁ => Aligned w₁ s₁ m.current Γ₁)
      (GermanLox.execute host (fuel + 1) s m) (GermanLox.execute host (fuel + 1) s' m') := by
  cases hs with
  | expression he =>
    simp only [GermanLox.execute]
    refine (ih.evaluate hfits he h halign).bind ?_
    intro w₁ m₁ m₁' _ _ hgrow₁ _ h₁ _
    exact .pure h₁ (.normal (halign.grow hgrow₁))
  | print he =>
    simp only [GermanLox.execute]
    refine (ih.evaluate hfits he h halign).bind ?_
    intro w₁ m₁ m₁' v v' hgrow₁ _ h₁ hv
    refine (h₁.print host hv).bind ?_
    intro w₂ m₂ m₂' _ _ hgrow₂ _ h₂ _
    exact .pure h₂ (.normal ((halign.grow hgrow₁).grow hgrow₂))
  | varDecl hname he =>
    simp only [GermanLox.execute]
    refine (ih.evaluateOptional hfits he h (halign.unready _)).bind ?_
    intro w₁ m₁ m₁' v v' hgrow₁ hcurrent₁ h₁ hv
    have halign₁ := halign.after hgrow₁ hcurrent₁
    refine h₁.atCurrent ((h₁.defineHere halign₁ hname (hv.grow (grows_define ..))).bind ?_)
    rintro w₂ m₂ m₂' _ _ - - h₂ ⟨rfl, hstore₂⟩
    refine .pure h₂ (.normal ?_)
    rw [hstore₂, ← hcurrent₁]
    exact halign₁.define _ v
  | @block _ _ ρ _ _ hbody =>
    simp only [GermanLox.execute]
    refine h.atCurrent ((h.newFrame m.current (.names ρ)).bind ?_)
    rintro w₁ m₁ m₁' _ f hgrow₁ hcurrent₁ h₁ ⟨hw₁, hstore₁, hf, rfl⟩
    have halign₁ := halign.newFrame (.names ρ)
    rw [← hw₁, ← hstore₁, ← hf] at halign₁
    refine (h₁.within fun hin => ih.executeAll hfits hbody hin halign₁).mono ?_
    intro w₂ s₂ x x' hgrow₂ hx
    cases hx with
    | normal => exact .normal ((halign.grow hgrow₁).grow hgrow₂)
    | returned hinside hv => exact .returned hinside hv
  | ifThen he hs =>
    simp only [GermanLox.execute]
    refine (ih.evaluate hfits he h halign).bind ?_
    intro w₁ m₁ m₁' v v' hgrow₁ hcurrent₁ h₁ hv
    rw [hv.isTruthy_eq, ← hcurrent₁]
    split
    · exact ih.execute hfits hs h₁ (halign.after hgrow₁ hcurrent₁)
    · exact .pure h₁ (.normal (halign.after hgrow₁ hcurrent₁))
  | ifElse he hs hr =>
    simp only [GermanLox.execute]
    refine (ih.evaluate hfits he h halign).bind ?_
    intro w₁ m₁ m₁' v v' hgrow₁ hcurrent₁ h₁ hv
    rw [hv.isTruthy_eq, ← hcurrent₁]
    split
    · exact ih.execute hfits hs h₁ (halign.after hgrow₁ hcurrent₁)
    · exact ih.execute hfits hr h₁ (halign.after hgrow₁ hcurrent₁)
  | loop he hs =>
    simp only [GermanLox.execute]
    exact ih.executeLoop hfits he hs h halign
  | @funDecl _ _ decl decl' hname hdecl =>
    simp only [GermanLox.execute]
    refine h.atCurrent ((h.close decl decl' m.current false).bind ?_)
    rintro w₁ m₁ m₁' _ _ hgrow₁ hcurrent₁ h₁ ⟨rfl, hstore₁, k, rfl, rfl⟩
    have halign₁ := halign.after hgrow₁ hcurrent₁
    have halign₂ := halign₁.define decl.name.lexeme (.closure ⟨k, decl, m.current, false⟩)
    rw [← hcurrent₁] at halign₂ ⊢
    refine (h₁.defineHere halign₁ hname ?_).bind ?_
    · exact .closure ⟨⟨rfl, rfl, rfl, σ, _, hfits, halign₂, hdecl⟩, fun hinit => by cases hinit⟩
    rintro w₂ m₂ m₂' _ _ - - h₂ ⟨rfl, hstore₂⟩
    refine .pure h₂ (.normal ?_)
    rw [hstore₂]
    exact halign₂
  | ret he =>
    simp only [GermanLox.execute]
    refine (ih.evaluateOptional hfits he h halign).bind ?_
    intro w₁ m₁ m₁' v v' _ _ h₁ hv
    exact .pure h₁ (.returned rfl hv)
  | classDecl ht hname hmethods => exact ih.classDecl_succ hfits ht hname .none hmethods h halign
  | subclassDecl ht hname he hmethods =>
    exact ih.classDecl_succ hfits ht hname (.some he) hmethods h halign

lemma executeAll_succ (ih : RunsAlike E host fuel) (hfits : σ.Fits E) {inside : Bool}
    {ss ss' : List Stmt} (hss : StmtsLike σ inside Γ ss ss') (h : Agree E w m m')
    (halign : Aligned w m.store m.current Γ) :
    OutcomeLike E w m (CompletionLike E inside fun _ _ => True)
      (GermanLox.executeAll host (fuel + 1) ss m)
      (GermanLox.executeAll host (fuel + 1) ss' m') := by
  cases hss with
  | nil =>
    simp only [GermanLox.executeAll]
    exact .pure h (.normal trivial)
  | cons hs hss =>
    simp only [GermanLox.executeAll]
    refine (ih.execute hfits hs h halign).bind ?_
    intro w₁ m₁ m₁' x x' _ hcurrent₁ h₁ hx
    cases hx with
    | normal halign₁ =>
      rw [← hcurrent₁] at halign₁
      exact ih.executeAll hfits hss h₁ halign₁
    | returned hinside hv => exact .pure h₁ (.returned hinside hv)

lemma executeLoop_succ (ih : RunsAlike E host fuel) (hfits : σ.Fits E) {inside : Bool}
    {e e' : Expr} {s s' : Stmt} (he : ExprLike σ Γ e e') (hs : StmtLike σ inside Γ s s' Γ)
    (h : Agree E w m m') (halign : Aligned w m.store m.current Γ) :
    OutcomeLike E w m (CompletionLike E inside fun w₁ s₁ => Aligned w₁ s₁ m.current Γ)
      (GermanLox.executeLoop host (fuel + 1) e s m)
      (GermanLox.executeLoop host (fuel + 1) e' s' m') := by
  simp only [GermanLox.executeLoop]
  refine (ih.evaluate hfits he h halign).bind ?_
  intro w₁ m₁ m₁' v v' hgrow₁ hcurrent₁ h₁ hv
  rw [hv.isTruthy_eq, ← hcurrent₁]
  split
  · refine (ih.execute hfits hs h₁ (halign.after hgrow₁ hcurrent₁)).bind ?_
    intro w₂ m₂ m₂' x x' _ hcurrent₂ h₂ hx
    cases hx with
    | normal halign₂ =>
      rw [← hcurrent₂] at halign₂ ⊢
      exact ih.executeLoop hfits he hs h₂ halign₂
    | returned hinside hv => exact .pure h₂ (.returned hinside hv)
  · exact .pure h₁ (.normal (halign.after hgrow₁ hcurrent₁))

end RunsAlike

/-- Code alike runs alike. -/
theorem runsAlike (E : Setting) (host : Host) (fuel : Nat) : RunsAlike E host fuel := by
  induction fuel with
  | zero => exact .zero
  | succ fuel ih => exact {
      evaluate := fun hfits hlike h halign => ih.evaluate_succ hfits hlike h halign
      evaluateAll := fun hfits hlike h halign => ih.evaluateAll_succ hfits hlike h halign
      evaluateOptional := fun hfits hlike h halign => ih.evaluateOptional_succ hfits hlike h halign
      evaluateSuperclass := fun hfits ht he h halign =>
        ih.evaluateSuperclass_succ hfits ht he h halign
      call := fun hf hargs harity h => ih.call_succ hf hargs harity h
      execute := fun hfits hlike h halign => ih.execute_succ hfits hlike h halign
      executeAll := fun hfits hlike h halign => ih.executeAll_succ hfits hlike h halign
      executeLoop := fun hfits he hs h halign => ih.executeLoop_succ hfits he hs h halign }

end GermanLox
