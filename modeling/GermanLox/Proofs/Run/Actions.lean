import GermanLox.Evaluator
import GermanLox.Proofs.Run.World

/-!
# Actions with outcomes alike

Two actions, from machines alike, either both give a result or both stop, and leave machines alike.
Faults have the same cause and message, at tokens alike. Sequencing keeps this, and so do the single
actions of the machine.
-/

namespace GermanLox

namespace Eval

variable {m : Machine} {id : ExprId} {t : Token}

lemma lookUp_of_some {d : Nat} (h : m.distances[id]? = some d) :
    lookUp id t m = orFail t .undefinedVariable (m.store.getAt? m.current d t.lexeme) m := by
  simp only [lookUp, distance?, getAt?, Bind.bind, EStateM.bind, h]

lemma lookUp_of_none (h : m.distances[id]? = none) :
    lookUp id t m = orFail t .undefinedVariable (m.store.get? Store.globals t.lexeme) m := by
  simp only [lookUp, distance?, inspect, Bind.bind, EStateM.bind, h]

lemma assign_of_some {d : Nat} {frame : FrameId} {v : Value} (h : m.distances[id]? = some d)
    (hframe : m.store.ancestor? m.current d = some frame) :
    assign id t v m = define frame t.lexeme v m := by
  simp only [assign, assignAt, distance?, currentFrame, inspect, orFail, pure, EStateM.pure,
    Bind.bind, EStateM.bind, h, hframe]

lemma assignFrom_eq {frame : FrameId} {v : Value} :
    assignFrom frame t v m = (orFail t .undefinedVariable (m.store.frameOf? frame t.lexeme) >>=
      fun target => define target t.lexeme v) m := by
  simp only [assignFrom, inspect, Bind.bind, EStateM.bind]

lemma assignFrom_of_bound {frame : FrameId} {v : Value}
    (h : (m.store.local? frame t.lexeme).isSome) :
    assignFrom frame t v m = define frame t.lexeme v m := by
  have hframe : m.store.frameOf? frame t.lexeme = some frame := by
    simp [Store.frameOf?, Store.frameWithin?, h]
  rw [assignFrom_eq, hframe]
  rfl

lemma assign_of_none {v : Value} (h : m.distances[id]? = none) :
    assign id t v m = assignFrom Store.globals t v m := by
  simp only [assign, distance?, Bind.bind, EStateM.bind, h]

lemma property_of_field {i : InstanceId} {v : Value} (h : m.store.field? i t.lexeme = some v) :
    property i t m = .ok v m := by
  simp only [property, inspect, pure, EStateM.pure, Bind.bind, EStateM.bind, h]

lemma property_of_method {i : InstanceId} {method : Closure}
    (h : m.store.field? i t.lexeme = none) (hmethod : m.store.method? i t.lexeme = some method) :
    property i t m = (Value.closure <$> Eval.bind method i) m := by
  simp only [property, inspect, pure, EStateM.pure, Bind.bind, EStateM.bind, Functor.map,
    EStateM.map, h, hmethod]

lemma property_of_none {i : InstanceId} (h : m.store.field? i t.lexeme = none)
    (hmethod : m.store.method? i t.lexeme = none) :
    property i t m = fail t .undefinedProperty m := by
  simp only [property, inspect, Bind.bind, EStateM.bind, h, hmethod]

lemma superMethod_of_bound {d : Nat} {parent : Class} {receiver : InstanceId} {method : Token}
    (h : m.distances[id]? = some (d + 1))
    (hparent : m.store.getAt? m.current (d + 1) superName = some (.ofClass parent))
    (hreceiver : m.store.getAt? m.current d thisName = some (.ofInstance receiver)) :
    superMethod id t method m =
      match parent.findMethod? method.lexeme with
      | some found => (Value.closure <$> Eval.bind found receiver) m
      | none => fail method .undefinedProperty m := by
  simp only [superMethod, superAndReceiver, distance?, getAt?, pure, EStateM.pure, Bind.bind,
    EStateM.bind, Functor.map, EStateM.map, h, hparent, hreceiver]
  cases parent.findMethod? method.lexeme <;> rfl

end Eval

/-- Machines alike: they know the same of the world, and their tables know the entries of the
programs. -/
structure Agree (E : Setting) (w : Labels) (m m' : Machine) : Prop where
  store : StoreLike E w m.store m'.store
  current : m'.current = m.current
  left : ∀ i i' d, E.entry i i' d → m.distances[i]? = d
  right : ∀ i i' d, E.entry i i' d → m'.distances[i']? = d
  nextIdentity : m'.nextIdentity = m.nextIdentity
  readings : m'.readings = m.readings
  writes : m'.writes = m.writes
  output : m'.output = m.output

lemma Agree.withStore {E : Setting} {w w₁ : Labels} {m m' : Machine} (h : Agree E w m m')
    {s s' : Store} (hs : StoreLike E w₁ s s') :
    Agree E w₁ { m with store := s } { m' with store := s' } :=
  ⟨hs, h.current, h.left, h.right, h.nextIdentity, h.readings, h.writes, h.output⟩

/-- Stops alike. -/
inductive StopLike (E : Setting) : Stop → Stop → Prop
  | outOfFuel : StopLike E .outOfFuel .outOfFuel
  | fault {f f' : Fault} (htoken : E.tokens f.token f'.token) (hcause : f'.cause = f.cause)
    (hmessage : f'.message = f.message) : StopLike E (.fault f) (.fault f')

/-- Where tokens alike are equal, stops alike are equal. -/
lemma StopLike.eq {E : Setting} {stop stop' : Stop} (h : StopLike E stop stop')
    (htokens : ∀ t t', E.tokens t t' → t' = t) : stop' = stop := by
  cases h with
  | outOfFuel => rfl
  | @fault f f' htoken hcause hmessage =>
    obtain ⟨token, cause⟩ := f
    obtain ⟨token', cause'⟩ := f'
    obtain rfl : token' = token := htokens _ _ htoken
    obtain rfl : cause' = cause := hcause
    rfl

/-- Outcomes alike of actions that started on a machine: the frames stay, the running code is where
it was, and results are related in the store that is left. -/
inductive OutcomeLike {α : Type} (E : Setting) (w : Labels) (m : Machine)
    (Q : Labels → Store → α → α → Prop) :
    EStateM.Result Stop Machine α → EStateM.Result Stop Machine α → Prop
  | ok {w₁ m₁ m₁' a a'} (hgrow : Grows w m.store w₁ m₁.store) (hcurrent : m₁.current = m.current)
    (hagree : Agree E w₁ m₁ m₁') (hresult : Q w₁ m₁.store a a') :
    OutcomeLike E w m Q (.ok a m₁) (.ok a' m₁')
  | error {w₁ m₁ m₁' stop stop'} (hgrow : Grows w m.store w₁ m₁.store)
    (hcurrent : m₁.current = m.current) (hagree : Agree E w₁ m₁ m₁')
    (hstop : StopLike E stop stop') :
    OutcomeLike E w m Q (.error stop m₁) (.error stop' m₁')

section Sequencing

variable {E : Setting} {w : Labels} {m m' : Machine} {α β : Type}
  {Q : Labels → Store → α → α → Prop} {R : Labels → Store → β → β → Prop}

namespace OutcomeLike

/-- Results that are at hand. -/
lemma pure (h : Agree E w m m') {a a' : α} (ha : Q w m.store a a') :
    OutcomeLike E w m Q ((pure a : Eval α) m) ((pure a' : Eval α) m') :=
  .ok (Grows.refl w m.store) rfl h ha

/-- From a later machine back to an earlier one. -/
lemma after {w₁ : Labels} {m₁ : Machine} {r r' : EStateM.Result Stop Machine α}
    (h : OutcomeLike E w₁ m₁ Q r r') (hgrow : Grows w m.store w₁ m₁.store)
    (hcurrent : m₁.current = m.current) : OutcomeLike E w m Q r r' := by
  cases h with
  | ok hg hc ha hr => exact .ok (hgrow.trans hg) (hc.trans hcurrent) ha hr
  | error hg hc ha hs => exact .error (hgrow.trans hg) (hc.trans hcurrent) ha hs

lemma mono {Q' : Labels → Store → α → α → Prop} {r r' : EStateM.Result Stop Machine α}
    (h : OutcomeLike E w m Q r r')
    (himp : ∀ w₁ s₁ a a', Grows w m.store w₁ s₁ → Q w₁ s₁ a a' → Q' w₁ s₁ a a') :
    OutcomeLike E w m Q' r r' := by
  cases h with
  | ok hg hc ha hr => exact .ok hg hc ha (himp _ _ _ _ hg hr)
  | error hg hc ha hs => exact .error hg hc ha hs

lemma bind {x x' : Eval α} {f f' : α → Eval β} (h : OutcomeLike E w m Q (x m) (x' m'))
    (hf : ∀ w₁ m₁ m₁' a a', Grows w m.store w₁ m₁.store → m₁.current = m.current →
      Agree E w₁ m₁ m₁' → Q w₁ m₁.store a a' → OutcomeLike E w₁ m₁ R (f a m₁) (f' a' m₁')) :
    OutcomeLike E w m R ((x >>= f) m) ((x' >>= f') m') := by
  change OutcomeLike E w m R (EStateM.bind x f m) (EStateM.bind x' f' m')
  unfold EStateM.bind
  revert h
  generalize x m = r
  generalize x' m' = r'
  intro h
  cases h with
  | ok hg hc ha hr => exact (hf _ _ _ _ _ hg hc ha hr).after hg hc
  | error hg hc ha hs => exact .error hg hc ha hs

end OutcomeLike

lemma Fault.message_eq {t t' : Token} (h : t'.lexeme = t.lexeme) (cause : FaultCause) :
    Fault.message ⟨t', cause⟩ = Fault.message ⟨t, cause⟩ := by
  simp only [Fault.message, h]

namespace Agree

lemma fail (h : Agree E w m m') {t t' : Token} {cause : FaultCause} (ht : E.Spelled t t') :
    OutcomeLike E w m Q (Eval.fail t cause m) (Eval.fail t' cause m') :=
  .error (Grows.refl w m.store) rfl h (.fault ht.1 rfl (Fault.message_eq ht.2 cause))

lemma outOfFuel (h : Agree E w m m') :
    OutcomeLike E w m Q (Eval.outOfFuel m) (Eval.outOfFuel m') :=
  .error (Grows.refl w m.store) rfl h .outOfFuel

/-- What two stores answer alike, or a fault where both have nothing. -/
lemma orFail (h : Agree E w m m') {t t' : Token} {cause : FaultCause} {o o' : Option α}
    (ho : Option.Rel (Q w m.store) o o') (ht : o = none → E.Spelled t t') :
    OutcomeLike E w m Q (Eval.orFail t cause o m) (Eval.orFail t' cause o' m') := by
  cases ho with
  | some ha => exact .pure h ha
  | none => exact h.fail (ht rfl)

lemma within (h : Agree E w m m') {frame : FrameId} {x x' : Eval α}
    (hx : Agree E w { m with current := frame } { m' with current := frame } →
      OutcomeLike E w { m with current := frame } Q (x { m with current := frame })
        (x' { m' with current := frame })) :
    OutcomeLike E w m Q (Eval.within frame x m) (Eval.within frame x' m') := by
  have hin := hx ⟨h.store, rfl, h.left, h.right, h.nextIdentity, h.readings, h.writes, h.output⟩
  unfold Eval.within
  revert hin
  generalize x { m with current := frame } = r
  generalize x' { m' with current := frame } = r'
  intro hin
  cases hin with
  | ok hg _ ha hr =>
    exact .ok hg rfl ⟨ha.store, h.current, ha.left, ha.right, ha.nextIdentity, ha.readings,
      ha.writes, ha.output⟩ hr
  | error hg _ ha hs =>
    exact .error hg rfl ⟨ha.store, h.current, ha.left, ha.right, ha.nextIdentity, ha.readings,
      ha.writes, ha.output⟩ hs

end Agree

end Sequencing

namespace Agree

variable {E : Setting} {w : Labels} {m m' : Machine}

/-- Actions in the frame of the running code. -/
lemma atCurrent (h : Agree E w m m') {α : Type} {Q : Labels → Store → α → α → Prop}
    {f f' : FrameId → Eval α} (hf : OutcomeLike E w m Q (f m.current m) (f' m.current m')) :
    OutcomeLike E w m Q ((Eval.currentFrame >>= f) m) ((Eval.currentFrame >>= f') m') := by
  change OutcomeLike E w m Q (f m.current m) (f' m'.current m')
  rw [h.current]
  exact hf

lemma freshIdentity (h : Agree E w m m') :
    OutcomeLike E w m (fun w₁ s₁ i i' => w₁ = w ∧ s₁ = m.store ∧ i' = i) (Eval.freshIdentity m)
      (Eval.freshIdentity m') :=
  .ok (Grows.refl w m.store) rfl
    ⟨h.store, h.current, h.left, h.right, congrArg (· + 1) h.nextIdentity, h.readings, h.writes,
      h.output⟩ ⟨rfl, rfl, h.nextIdentity⟩

lemma newFrame (h : Agree E w m m') (outer : FrameId) (label : Label) :
    OutcomeLike E w m (fun w₁ s₁ f f' => w₁ = Function.update w m.store.frames.size label ∧
        s₁ = (m.store.newFrame (some outer)).2 ∧ f = m.store.frames.size ∧ f' = f)
      (Eval.newFrame outer m) (Eval.newFrame outer m') :=
  .ok (grows_newFrame w m.store (some outer) label) rfl
    (h.withStore (h.store.newFrame outer label)) ⟨rfl, rfl, rfl, h.store.size⟩

/-- Setting a variable in a frame of variables, or the one that a frame of its own kind is for. -/
lemma define (h : Agree E w m m') {f : FrameId} {n n' : String} {v v' : Value}
    (hf : f < m.store.frames.size) (hn : n' = (w f).rename n)
    (hv : ValueLike E w (m.store.define f n v) v v')
    (hthis : w f = .receiver → n = thisName → ∃ i, v = .ofInstance i)
    (hsuper : w f = .superclass → n = superName → ∃ c, v = .ofClass c) :
    OutcomeLike E w m (fun w₁ s₁ _ _ => w₁ = w ∧ s₁ = m.store.define f n v)
      (Eval.define f n v m) (Eval.define f n' v' m') := by
  subst hn
  exact .ok (grows_define w m.store f n v) rfl (h.withStore (h.store.define hf hv hthis hsuper))
    ⟨rfl, rfl⟩

lemma lookUp (h : Agree E w m m') {Γ : Layers} (halign : Aligned w m.store m.current Γ)
    {i i' : ExprId} {t t' : Token} (ht : E.tokens t t')
    (href : Refers E Γ False i i' t.lexeme t'.lexeme) :
    OutcomeLike E w m (ValueLike E) (Eval.lookUp i t m) (Eval.lookUp i' t' m') := by
  cases href with
  | global hentry hname =>
    rw [Eval.lookUp_of_none (h.left _ _ _ hentry), Eval.lookUp_of_none (h.right _ _ _ hentry),
      Store.get?_globals h.store.outermost, Store.get?_globals h.store.outermost_right]
    refine h.orFail ?_ fun _ => ⟨ht, hname⟩
    rw [hname]
    exact h.store.binding_globals t.lexeme
  | @bound distance layer hentry hlayer hready hname =>
    obtain ⟨g, hg, hlt, hlabel, hbound, -⟩ := halign.frame hlayer
    have hsome : (m.store.local? g t.lexeme).isSome := by
      rcases hready with hready | ⟨-, hfalse⟩
      · exact hbound _ hready
      · exact hfalse.elim
    rw [Eval.lookUp_of_some (h.left _ _ _ hentry), Eval.lookUp_of_some (h.right _ _ _ hentry),
      h.current, Store.getAt?, Store.getAt?, h.store.ancestor?_eq, hg]
    refine h.orFail ?_ ?_
    · have hrel := h.store.binding g t.lexeme
      rwa [hlabel, ← hname] at hrel
    · intro hnone
      rw [Option.bind_some] at hnone
      rw [hnone] at hsome
      cases hsome

lemma assign (h : Agree E w m m') {Γ : Layers} (halign : Aligned w m.store m.current Γ)
    {i i' : ExprId} {t t' : Token} {early : Prop} {v v' : Value} (ht : E.tokens t t')
    (href : Refers E Γ early i i' t.lexeme t'.lexeme) (hthis : t.lexeme ≠ thisName)
    (hsuper : t.lexeme ≠ superName) (hv : ValueLike E w m.store v v') :
    OutcomeLike E w m (fun _ _ _ _ => True) (Eval.assign i t v m) (Eval.assign i' t' v' m') := by
  have hafter (f : FrameId) : ValueLike E w (m.store.define f t.lexeme v) v v' :=
    hv.grow (grows_define w m.store f t.lexeme v)
  cases href with
  | global hentry hname =>
    rw [Eval.assign_of_none (h.left _ _ _ hentry), Eval.assign_of_none (h.right _ _ _ hentry),
      Eval.assignFrom_eq, Eval.assignFrom_eq, Store.frameOf?_globals h.store.outermost,
      Store.frameOf?_globals h.store.outermost_right, hname]
    obtain ⟨hnone, hnone'⟩ | ⟨u, u', hsome, hsome', -⟩ :=
      (h.store.binding_globals t.lexeme).none_or_some
    · rw [hnone, hnone']
      exact h.fail ⟨ht, hname⟩
    · rw [hsome, hsome']
      refine .mono (h.define h.store.globals ?_ (hafter _) ?_ ?_) fun _ _ _ _ _ _ => trivial
      · simp [h.store.label, Label.rename]
      · exact fun _ heq => absurd heq hthis
      · exact fun _ heq => absurd heq hsuper
  | @bound distance layer hentry hlayer _ hname =>
    obtain ⟨g, hg, hlt, hlabel, -⟩ := halign.frame hlayer
    have hg' : m'.store.ancestor? m'.current distance = some g := by
      rw [h.current, h.store.ancestor?_eq, hg]
    rw [Eval.assign_of_some (h.left _ _ _ hentry) hg,
      Eval.assign_of_some (h.right _ _ _ hentry) hg']
    refine .mono (h.define hlt ?_ (hafter g) ?_ ?_) fun _ _ _ _ _ _ => trivial
    · rw [hlabel, hname]
    · exact fun _ heq => absurd heq hthis
    · exact fun _ heq => absurd heq hsuper

lemma close (h : Agree E w m m') (decl decl' : FunctionDecl) (frame : FrameId)
    (isInitializer : Bool) :
    OutcomeLike E w m (fun w₁ s₁ c c' => w₁ = w ∧ s₁ = m.store ∧
        ∃ k, c = ⟨k, decl, frame, isInitializer⟩ ∧ c' = ⟨k, decl', frame, isInitializer⟩)
      (Eval.close decl frame isInitializer m) (Eval.close decl' frame isInitializer m') := by
  refine h.freshIdentity.bind ?_
  rintro w₁ m₁ m₁' k _ - - h₁ ⟨rfl, hstore, rfl⟩
  exact .pure h₁ ⟨rfl, hstore, _, rfl, rfl⟩

end Agree

end GermanLox
