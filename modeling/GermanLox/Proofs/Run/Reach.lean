import GermanLox.Proofs.Run.Simulation

/-!
# Where a run comes by

The evaluator calls itself with less fuel; here are these calls, each with the machine it starts on.
What a run reaches this way it reaches whether or not it ends. Code in a store that is like itself
stays so: every call starts on a machine that lines up with the scopes of its code.
-/

namespace GermanLox

/-- A call of the evaluator. -/
inductive Task where
  | evaluate (e : Expr)
  | evaluateAll (es : List Expr)
  | evaluateOptional (e : Option Expr)
  | evaluateSuperclass (name : Token) (e : Option Expr)
  | call (f : Callable) (args : List Value)
  | execute (s : Stmt)
  | executeAll (ss : List Stmt)
  | executeLoop (condition : Expr) (body : Stmt)

/-- The calls that a call with one more piece of fuel makes, and the machines they start on. -/
inductive Enters (host : Host) (fuel : Nat) : Task → Machine → Task → Machine → Prop
  | grouping {i e m} : Enters host fuel (.evaluate (.grouping i e)) m (.evaluate e) m
  | operand {i op t e m} : Enters host fuel (.evaluate (.unary i op t e)) m (.evaluate e) m
  | binaryLeft {i op t left right m} :
    Enters host fuel (.evaluate (.binary i op t left right)) m (.evaluate left) m
  | binaryRight {i op t left right m v m₁} (hleft : evaluate host fuel left m = .ok v m₁) :
    Enters host fuel (.evaluate (.binary i op t left right)) m (.evaluate right) m₁
  | logicalLeft {i op t left right m} :
    Enters host fuel (.evaluate (.logical i op t left right)) m (.evaluate left) m
  | logicalRight {i op t left right m v m₁} (hleft : evaluate host fuel left m = .ok v m₁)
    (hopen : op.isSettledBy v = false) :
    Enters host fuel (.evaluate (.logical i op t left right)) m (.evaluate right) m₁
  | assigned {i name value m} :
    Enters host fuel (.evaluate (.assign i name value)) m (.evaluate value) m
  | callee {i e paren es m} : Enters host fuel (.evaluate (.call i e paren es)) m (.evaluate e) m
  | arguments {i e paren es m v m₁} (hcallee : evaluate host fuel e m = .ok v m₁) :
    Enters host fuel (.evaluate (.call i e paren es)) m (.evaluateAll es) m₁
  | call {i e paren es m v m₁ args m₂ f} (hcallee : evaluate host fuel e m = .ok v m₁)
    (hargs : evaluateAll host fuel es m₁ = .ok args m₂) (hf : v.callable? = some f)
    (harity : args.length = f.arity) :
    Enters host fuel (.evaluate (.call i e paren es)) m (.call f args) m₂
  | object {i e name m} : Enters host fuel (.evaluate (.get i e name)) m (.evaluate e) m
  | target {i e name value m} :
    Enters host fuel (.evaluate (.set i e name value)) m (.evaluate e) m
  | field {i e name value m j m₁} (htarget : evaluate host fuel e m = .ok (.ofInstance j) m₁) :
    Enters host fuel (.evaluate (.set i e name value)) m (.evaluate value) m₁
  | first {e es m} : Enters host fuel (.evaluateAll (e :: es)) m (.evaluate e) m
  | others {e es m v m₁} (hfirst : evaluate host fuel e m = .ok v m₁) :
    Enters host fuel (.evaluateAll (e :: es)) m (.evaluateAll es) m₁
  | given {e m} : Enters host fuel (.evaluateOptional (some e)) m (.evaluate e) m
  | superclass {name e m} :
    Enters host fuel (.evaluateSuperclass name (some e)) m (.evaluate e) m
  | body {c : Closure} {args m frame m₁ m₂} (hframe : Eval.newFrame c.frame m = .ok frame m₁)
    (hparams : Eval.defineAll frame ((c.decl.params.map Token.lexeme).zip args) m₁ = .ok () m₂) :
    Enters host fuel (.call (.closure c) args) m (.executeAll c.decl.body)
      { m₂ with current := frame }
  | initializer {c : Class} {args m i m₁ init bound m₂}
    (hinstance : Eval.newInstance c m = .ok i m₁) (hinit : c.initializer? = some init)
    (hbound : Eval.bind init i m₁ = .ok bound m₂) :
    Enters host fuel (.call (.ofClass c) args) m (.call (.closure bound) args) m₂
  | expression {e m} : Enters host fuel (.execute (.expression e)) m (.evaluate e) m
  | print {e m} : Enters host fuel (.execute (.print e)) m (.evaluate e) m
  | varDecl {name e m} :
    Enters host fuel (.execute (.varDecl name e)) m (.evaluateOptional e) m
  | block {ss m frame m₁} (hframe : Eval.newFrame m.current m = .ok frame m₁) :
    Enters host fuel (.execute (.block ss)) m (.executeAll ss) { m₁ with current := frame }
  | condition {e s u m} : Enters host fuel (.execute (.ifElse e s u)) m (.evaluate e) m
  | thenBranch {e s u m v m₁} (hcondition : evaluate host fuel e m = .ok v m₁)
    (hv : v.isTruthy = true) : Enters host fuel (.execute (.ifElse e s u)) m (.execute s) m₁
  | elseBranch {e s u m v m₁} (hcondition : evaluate host fuel e m = .ok v m₁)
    (hv : v.isTruthy = false) :
    Enters host fuel (.execute (.ifElse e s (some u))) m (.execute u) m₁
  | loop {e s m} : Enters host fuel (.execute (.loop e s)) m (.executeLoop e s) m
  | ret {t e m} : Enters host fuel (.execute (.ret t e)) m (.evaluateOptional e) m
  | classDecl {name e methods m} :
    Enters host fuel (.execute (.classDecl name e methods)) m (.evaluateSuperclass name e) m
  | statement {s ss m} : Enters host fuel (.executeAll (s :: ss)) m (.execute s) m
  | statements {s ss m m₁} (hfirst : execute host fuel s m = .ok .normal m₁) :
    Enters host fuel (.executeAll (s :: ss)) m (.executeAll ss) m₁
  | loopCondition {e s m} : Enters host fuel (.executeLoop e s) m (.evaluate e) m
  | loopBody {e s m v m₁} (hcondition : evaluate host fuel e m = .ok v m₁)
    (hv : v.isTruthy = true) : Enters host fuel (.executeLoop e s) m (.execute s) m₁
  | again {e s m v m₁ m₂} (hcondition : evaluate host fuel e m = .ok v m₁)
    (hv : v.isTruthy = true) (hbody : execute host fuel s m₁ = .ok .normal m₂) :
    Enters host fuel (.executeLoop e s) m (.executeLoop e s) m₂

/-- The calls that a call makes, directly or through others. -/
inductive Reaches (host : Host) (fuel : Nat) (t : Task) (m : Machine) :
    Nat → Task → Machine → Prop
  | refl : Reaches host fuel t m fuel t m
  | step {n t₁ m₁ t₂ m₂} (h : Reaches host fuel t m (n + 1) t₁ m₁)
    (hnext : Enters host n t₁ m₁ t₂ m₂) : Reaches host fuel t m n t₂ m₂

/-- A call whose code is like itself, in scopes that line up with the frames. -/
def Task.Fits (E : Setting) (w : Labels) (m : Machine) : Task → Prop
  | .evaluate e => ∃ σ Γ, σ.Fits E ∧ ExprLike σ Γ e e ∧ Aligned w m.store m.current Γ
  | .evaluateAll es => ∃ σ Γ, σ.Fits E ∧ ExprsLike σ Γ es es ∧ Aligned w m.store m.current Γ
  | .evaluateOptional e => ∃ σ Γ, σ.Fits E ∧ OptionalLike σ Γ e e ∧ Aligned w m.store m.current Γ
  | .evaluateSuperclass _ e =>
    ∃ σ Γ, σ.Fits E ∧ OptionalLike σ Γ e e ∧ Aligned w m.store m.current Γ
  | .call f args => CallableLike E w m.store f f ∧
    List.Forall₂ (ValueLike E w m.store) args args ∧ args.length = f.arity
  | .execute s =>
    ∃ σ inside Γ Γ₁, σ.Fits E ∧ StmtLike σ inside Γ s s Γ₁ ∧ Aligned w m.store m.current Γ
  | .executeAll ss =>
    ∃ σ inside Γ, σ.Fits E ∧ StmtsLike σ inside Γ ss ss ∧ Aligned w m.store m.current Γ
  | .executeLoop e s => ∃ σ inside Γ, σ.Fits E ∧ ExprLike σ Γ e e ∧ StmtLike σ inside Γ s s Γ ∧
    Aligned w m.store m.current Γ

/-- A call on a machine that is like itself. -/
def Task.Sound (E : Setting) (t : Task) (m : Machine) : Prop :=
  ∃ w, Agree E w m m ∧ t.Fits E w m

/-- What an action that has ended leaves of a machine that is like itself. -/
lemma OutcomeLike.of_ok {α : Type} {E : Setting} {w : Labels} {m m₁ : Machine}
    {Q : Labels → Store → α → α → Prop} {r : EStateM.Result Stop Machine α} {a : α}
    (h : OutcomeLike E w m Q r r) (hr : r = .ok a m₁) :
    ∃ w₁, Grows w m.store w₁ m₁.store ∧ m₁.current = m.current ∧ Agree E w₁ m₁ m₁ ∧
      Q w₁ m₁.store a a := by
  subst hr
  cases h with
  | ok hgrow hcurrent hagree hresult => exact ⟨_, hgrow, hcurrent, hagree, hresult⟩

namespace Enters

variable {E σ : Setting} {host : Host} {fuel : Nat} {w : Labels} {m m₁ : Machine} {Γ : Layers}
  {t t₁ : Task}

/-- After an expression, its scopes still line up. -/
lemma after_evaluate (hfits : σ.Fits E) {e : Expr} (he : ExprLike σ Γ e e) (h : Agree E w m m)
    (halign : Aligned w m.store m.current Γ) {v : Value}
    (hok : GermanLox.evaluate host fuel e m = .ok v m₁) :
    ∃ w₁, Agree E w₁ m₁ m₁ ∧ Aligned w₁ m₁.store m₁.current Γ ∧ ValueLike E w₁ m₁.store v v := by
  obtain ⟨w₁, hgrow, hcurrent, h₁, hv⟩ :=
    ((runsAlike E host fuel).evaluate hfits he h halign).of_ok hok
  exact ⟨w₁, h₁, halign.after hgrow hcurrent, hv⟩

/-- A statement leaves scopes that line up, with the name that it declares. -/
lemma after_execute (hfits : σ.Fits E) {inside : Bool} {s : Stmt} {Γ₁ : Layers}
    (hs : StmtLike σ inside Γ s s Γ₁) (h : Agree E w m m)
    (halign : Aligned w m.store m.current Γ)
    (hok : GermanLox.execute host fuel s m = .ok .normal m₁) :
    ∃ w₁, Agree E w₁ m₁ m₁ ∧ Aligned w₁ m₁.store m₁.current Γ₁ := by
  obtain ⟨w₁, -, hcurrent, h₁, hx⟩ := ((runsAlike E host fuel).execute hfits hs h halign).of_ok hok
  cases hx with
  | normal halign₁ => exact ⟨w₁, h₁, by rwa [hcurrent]⟩

lemma sound_of_evaluate {e : Expr} (hsound : (Task.evaluate e).Sound E m)
    (hnext : Enters host fuel (.evaluate e) m t₁ m₁) : t₁.Sound E m₁ := by
  obtain ⟨w, h, σ, Γ, hfits, he, halign⟩ := hsound
  cases hnext with
  | grouping =>
    cases he with
    | grouping he => exact ⟨w, h, σ, Γ, hfits, he, halign⟩
  | operand =>
    cases he with
    | unary _ he => exact ⟨w, h, σ, Γ, hfits, he, halign⟩
  | binaryLeft =>
    cases he with
    | binary _ hl => exact ⟨w, h, σ, Γ, hfits, hl, halign⟩
  | binaryRight hleft =>
    cases he with
    | binary _ hl hr =>
      obtain ⟨w₁, h₁, halign₁, -⟩ := after_evaluate hfits hl h halign hleft
      exact ⟨w₁, h₁, σ, Γ, hfits, hr, halign₁⟩
  | logicalLeft =>
    cases he with
    | logical hl => exact ⟨w, h, σ, Γ, hfits, hl, halign⟩
  | logicalRight hleft _ =>
    cases he with
    | logical hl hr =>
      obtain ⟨w₁, h₁, halign₁, -⟩ := after_evaluate hfits hl h halign hleft
      exact ⟨w₁, h₁, σ, Γ, hfits, hr, halign₁⟩
  | assigned =>
    cases he with
    | assign _ _ _ _ he => exact ⟨w, h, σ, Γ, hfits, he, halign⟩
  | callee =>
    cases he with
    | call he => exact ⟨w, h, σ, Γ, hfits, he, halign⟩
  | arguments hcallee =>
    cases he with
    | call he _ hes =>
      obtain ⟨w₁, h₁, halign₁, -⟩ := after_evaluate hfits he h halign hcallee
      exact ⟨w₁, h₁, σ, Γ, hfits, hes, halign₁⟩
  | call hcallee hargs hf harity =>
    cases he with
    | call he _ hes =>
      obtain ⟨w₁, h₁, halign₁, hv⟩ := after_evaluate hfits he h halign hcallee
      obtain ⟨w₂, hgrow, -, h₂, hvs⟩ :=
        ((runsAlike E host fuel).evaluateAll hfits hes h₁ halign₁).of_ok hargs
      have hcallable := (hv.grow hgrow).callable?
      rw [hf] at hcallable
      cases hcallable with
      | some hc => exact ⟨w₂, h₂, hc, hvs, harity⟩
  | object =>
    cases he with
    | get he => exact ⟨w, h, σ, Γ, hfits, he, halign⟩
  | target =>
    cases he with
    | set ho => exact ⟨w, h, σ, Γ, hfits, ho, halign⟩
  | field htarget =>
    cases he with
    | set ho _ he =>
      obtain ⟨w₁, h₁, halign₁, -⟩ := after_evaluate hfits ho h halign htarget
      exact ⟨w₁, h₁, σ, Γ, hfits, he, halign₁⟩

lemma sound_of_evaluateAll {es : List Expr} (hsound : (Task.evaluateAll es).Sound E m)
    (hnext : Enters host fuel (.evaluateAll es) m t₁ m₁) : t₁.Sound E m₁ := by
  obtain ⟨w, h, σ, Γ, hfits, hes, halign⟩ := hsound
  cases hnext with
  | first =>
    cases hes with
    | cons he => exact ⟨w, h, σ, Γ, hfits, he, halign⟩
  | others hfirst =>
    cases hes with
    | cons he hes =>
      obtain ⟨w₁, h₁, halign₁, -⟩ := after_evaluate hfits he h halign hfirst
      exact ⟨w₁, h₁, σ, Γ, hfits, hes, halign₁⟩

lemma sound_of_call {f : Callable} {args : List Value} (hsound : (Task.call f args).Sound E m)
    (hnext : Enters host fuel (.call f args) m t₁ m₁) : t₁.Sound E m₁ := by
  obtain ⟨w, h, hf, hargs, harity⟩ := hsound
  cases hnext with
  | @body c _ _ frame m₁ m₂ hframe hparams =>
    cases hf with
    | closure hc =>
      obtain ⟨σ, Γ, hfits, halign, hcode⟩ := hc.code
      obtain ⟨ρ, hnames, hbody⟩ := hcode.body
      obtain ⟨w₁, hgrow₁, -, h₁, hw₁, hstore₁, hf, -⟩ :=
        (h.newFrame c.frame (.names ρ)).of_ok hframe
      have halign₁ := halign.newFrame (.names ρ)
      rw [← hw₁, ← hstore₁, ← hf] at halign₁
      have hpairs := RunsAlike.zip_like hnames (hargs.imp fun _ _ hv => hv.grow hgrow₁)
      obtain ⟨w₂, hgrow₂, -, h₂, hbound⟩ :=
        (h₁.defineAll halign₁.1 halign₁.2.1 hpairs).of_ok hparams
      rw [List.map_fst_zip (by rw [List.length_map, harity]; exact Nat.le_refl _)] at hbound
      exact ⟨w₂, ⟨h₂.store, rfl, h₂.left, h₂.right, rfl, rfl, rfl, rfl⟩, σ, true, _, hfits, hbody,
        (halign₁.grow hgrow₂).parameters hbound⟩
  | @initializer c _ _ i m₁ init bound _ hinstance hinit hbound =>
    cases hf with
    | ofClass hc =>
      obtain ⟨w₁, hgrow₁, -, h₁, -⟩ := (h.newInstance hc).of_ok hinstance
      have hmethod := (hc.grow hgrow₁).findMethod? initializerName
      rw [show c.findMethod? initializerName = some init from hinit] at hmethod
      cases hmethod with
      | some hm =>
        obtain ⟨w₂, hgrow₂, -, h₂, hb, hdecl⟩ := (h₁.bind hm i).of_ok hbound
        refine ⟨w₂, h₂, .closure hb, hargs.imp fun _ _ hv => (hv.grow hgrow₁).grow hgrow₂, ?_⟩
        simp only [harity, Callable.arity, Class.arity, hinit, Closure.arity, hdecl]

lemma sound_of_execute {s : Stmt} (hsound : (Task.execute s).Sound E m)
    (hnext : Enters host fuel (.execute s) m t₁ m₁) : t₁.Sound E m₁ := by
  obtain ⟨w, h, σ, inside, Γ, Γ₁, hfits, hs, halign⟩ := hsound
  cases hnext with
  | expression =>
    cases hs with
    | expression he => exact ⟨w, h, σ, _, hfits, he, halign⟩
  | print =>
    cases hs with
    | print he => exact ⟨w, h, σ, _, hfits, he, halign⟩
  | varDecl =>
    cases hs with
    | varDecl _ he => exact ⟨w, h, σ, _, hfits, he, halign.unready _⟩
  | @block _ _ frame m₁ hframe =>
    cases hs with
    | @block _ _ ρ _ _ hbody =>
      obtain ⟨w₁, -, -, h₁, hw₁, hstore₁, hf, -⟩ :=
        (h.newFrame m.current (.names ρ)).of_ok hframe
      have halign₁ := halign.newFrame (.names ρ)
      rw [← hw₁, ← hstore₁, ← hf] at halign₁
      exact ⟨_, ⟨h₁.store, rfl, h₁.left, h₁.right, rfl, rfl, rfl, rfl⟩, σ, inside, _, hfits, hbody,
        halign₁⟩
  | condition =>
    cases hs with
    | ifThen he => exact ⟨w, h, σ, _, hfits, he, halign⟩
    | ifElse he => exact ⟨w, h, σ, _, hfits, he, halign⟩
  | thenBranch hcondition _ =>
    cases hs with
    | ifThen he hs =>
      obtain ⟨w₁, h₁, halign₁, -⟩ := after_evaluate hfits he h halign hcondition
      exact ⟨w₁, h₁, σ, inside, _, _, hfits, hs, halign₁⟩
    | ifElse he hs =>
      obtain ⟨w₁, h₁, halign₁, -⟩ := after_evaluate hfits he h halign hcondition
      exact ⟨w₁, h₁, σ, inside, _, _, hfits, hs, halign₁⟩
  | elseBranch hcondition _ =>
    cases hs with
    | ifElse he _ hu =>
      obtain ⟨w₁, h₁, halign₁, -⟩ := after_evaluate hfits he h halign hcondition
      exact ⟨w₁, h₁, σ, inside, _, _, hfits, hu, halign₁⟩
  | loop =>
    cases hs with
    | loop he hs => exact ⟨w, h, σ, inside, _, hfits, he, hs, halign⟩
  | ret =>
    cases hs with
    | ret he => exact ⟨w, h, σ, _, hfits, he, halign⟩
  | classDecl =>
    cases hs with
    | classDecl => exact ⟨w, h, σ, Γ, hfits, .none, halign⟩
    | subclassDecl _ _ he => exact ⟨w, h, σ, Γ, hfits, .some he, halign⟩

lemma sound_of_executeAll {ss : List Stmt} (hsound : (Task.executeAll ss).Sound E m)
    (hnext : Enters host fuel (.executeAll ss) m t₁ m₁) : t₁.Sound E m₁ := by
  obtain ⟨w, h, σ, inside, Γ, hfits, hss, halign⟩ := hsound
  cases hnext with
  | statement =>
    cases hss with
    | cons hs => exact ⟨w, h, σ, inside, _, _, hfits, hs, halign⟩
  | statements hfirst =>
    cases hss with
    | cons hs hss =>
      obtain ⟨w₁, h₁, halign₁⟩ := after_execute hfits hs h halign hfirst
      exact ⟨w₁, h₁, σ, inside, _, hfits, hss, halign₁⟩

lemma sound_of_executeLoop {e : Expr} {s : Stmt} (hsound : (Task.executeLoop e s).Sound E m)
    (hnext : Enters host fuel (.executeLoop e s) m t₁ m₁) : t₁.Sound E m₁ := by
  obtain ⟨w, h, σ, inside, Γ, hfits, he, hs, halign⟩ := hsound
  cases hnext with
  | loopCondition => exact ⟨w, h, σ, Γ, hfits, he, halign⟩
  | loopBody hcondition _ =>
    obtain ⟨w₁, h₁, halign₁, -⟩ := after_evaluate hfits he h halign hcondition
    exact ⟨w₁, h₁, σ, inside, Γ, Γ, hfits, hs, halign₁⟩
  | again hcondition _ hbody =>
    obtain ⟨w₁, h₁, halign₁, -⟩ := after_evaluate hfits he h halign hcondition
    obtain ⟨w₂, h₂, halign₂⟩ := after_execute hfits hs h₁ halign₁ hbody
    exact ⟨w₂, h₂, σ, inside, Γ, hfits, he, hs, halign₂⟩

/-- What is called by code that is like itself is so, too. -/
theorem sound (hnext : Enters host fuel t m t₁ m₁) (hsound : t.Sound E m) : t₁.Sound E m₁ := by
  cases t with
  | evaluate e => exact sound_of_evaluate hsound hnext
  | evaluateAll es => exact sound_of_evaluateAll hsound hnext
  | evaluateOptional e =>
    obtain ⟨w, h, σ, Γ, hfits, he, halign⟩ := hsound
    cases hnext with
    | given =>
      cases he with
      | some he => exact ⟨w, h, σ, Γ, hfits, he, halign⟩
  | evaluateSuperclass name e =>
    obtain ⟨w, h, σ, Γ, hfits, he, halign⟩ := hsound
    cases hnext with
    | superclass =>
      cases he with
      | some he => exact ⟨w, h, σ, Γ, hfits, he, halign⟩
  | call f args => exact sound_of_call hsound hnext
  | execute s => exact sound_of_execute hsound hnext
  | executeAll ss => exact sound_of_executeAll hsound hnext
  | executeLoop e s => exact sound_of_executeLoop hsound hnext

end Enters

/-- Wherever a run comes by, the scopes line up. -/
theorem Reaches.sound {E : Setting} {host : Host} {fuel n : Nat} {t t₁ : Task} {m m₁ : Machine}
    (h : Reaches host fuel t m n t₁ m₁) (hsound : t.Sound E m) : t₁.Sound E m₁ := by
  induction h with
  | refl => exact hsound
  | step _ hnext ih => exact hnext.sound ih

end GermanLox
