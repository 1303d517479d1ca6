import GermanLox.Proofs.Run.Founded

/-!
# Runs of founded code

Code of a session, started on a founded machine, leaves it founded, however it ends; every call that
it makes on the way starts on a founded machine as well, and what `dies` is in a frame when that
call ends it still is when the whole has ended. For classes this takes that those which are made on
the way are known of.
-/

namespace GermanLox

/-- Executing a class declaration makes a class, which its name then stands for, of the superclass
that its clause has evaluated to. -/
structure Makes (host : Host) (fuel : Nat) (K : ClassDecl) (m : Machine) (parent : Option Class)
    (c : Class) : Prop where
  superclass : ∃ m₁, evaluateSuperclass host fuel K.name K.superclass m = .ok parent m₁
  executed : ∃ m₁, execute host (fuel + 1) K.stmt m = .ok .normal m₁ ∧
    m₁.store.local? m.current K.name.lexeme = some (.ofClass c)

/-- What has been made has the methods of the declaration and the lineage of the superclass. -/
lemma Makes.methods {host : Host} {fuel : Nat} {K : ClassDecl} {m : Machine}
    {parent : Option Class} {c : Class} (h : Makes host fuel K m parent c)
    (hlt : m.current < m.store.frames.size) :
    c.ancestors = Class.lineageOf parent ∧
      ∀ n : String, c.own.methods[n]?.map Closure.decl = K.method? n := by
  obtain ⟨⟨m₁, hparent⟩, m₂, hexecute, hc⟩ := h
  have hretains := ((retaining host fuel).evaluateSuperclass _ _).of_ok hparent
  rw [← hretains.current] at hlt hc
  obtain ⟨methods, htable, hdeclare⟩ :=
    declareClass_eq (Nat.lt_of_lt_of_le hlt hretains.store.frames) K.name parent K.methods
  have hrun : execute host (fuel + 1) K.stmt m = _ :=
    EStateM.bind_eq_of_ok hparent (EStateM.bind_of_ok hdeclare _)
  cases hexecute.symm.trans hrun
  rw [Store.local?_define _ _ _ _ _ _ (Nat.lt_of_lt_of_le (Nat.lt_of_lt_of_le hlt
    (hretains.store.trans (.define m₁.store m₁.current K.name.lexeme .nil)).frames)
    (Store.retains_forMethods _ _ _).frames), if_pos ⟨rfl, rfl⟩] at hc
  cases hc
  exact ⟨rfl, htable.declared⟩

namespace Task

/-- The classes that are made on the way of a call are known of. -/
def Recorded (C : Chronicle) (host : Host) (fuel : Nat) (t : Task) (m : Machine) : Prop :=
  ∀ n K m₁ parent c, Reaches host fuel t m (n + 1) (.execute (ClassDecl.stmt K)) m₁ →
    Makes host n K m₁ parent c → C.made K parent c

/-- A call of code of the session where its scopes are nested as the frames are. -/
def Founded (C : Chronicle) (w : Roles) (m : Machine) : Task → Prop
  | evaluate e => ∃ Γ home, e.Belongs C Γ home ∧ Nested w m.store m.current Γ home
  | evaluateAll es =>
    ∃ Γ home, (∀ e ∈ es, e.Belongs C Γ home) ∧ Nested w m.store m.current Γ home
  | evaluateOptional o =>
    ∃ Γ home, (∀ e ∈ o, e.Belongs C Γ home) ∧ Nested w m.store m.current Γ home
  | evaluateSuperclass _ o =>
    ∃ Γ home, (∀ e ∈ o, e.Belongs C Γ home) ∧ Nested w m.store m.current Γ home
  | call f args => f.Founded C w m.store ∧ ∀ v ∈ args, v.Founded C w m.store
  | execute s => ∃ Γ home Γ₁, s.Belongs C Γ home Γ₁ ∧ Nested w m.store m.current Γ home
  | executeAll ss => ∃ Γ home, Stmt.BelongAll C Γ home ss ∧ Nested w m.store m.current Γ home
  | executeLoop e s => ∃ Γ home, e.Belongs C Γ home ∧ s.Belongs C Γ home Γ ∧
      Nested w m.store m.current Γ home

/-- What a call gives. -/
abbrev Result : Task → Type
  | evaluate _ => Value
  | evaluateAll _ => List Value
  | evaluateOptional _ => Value
  | evaluateSuperclass _ _ => Option Class
  | call _ _ => Value
  | execute _ => Completion
  | executeAll _ => Completion
  | executeLoop _ _ => Completion

def run (host : Host) (fuel : Nat) : (t : Task) → Eval t.Result
  | evaluate e => GermanLox.evaluate host fuel e
  | evaluateAll es => GermanLox.evaluateAll host fuel es
  | evaluateOptional o => GermanLox.evaluateOptional host fuel o
  | evaluateSuperclass name o => GermanLox.evaluateSuperclass host fuel name o
  | call f args => GermanLox.call host fuel f args
  | execute s => GermanLox.execute host fuel s
  | executeAll ss => GermanLox.executeAll host fuel ss
  | executeLoop e s => GermanLox.executeLoop host fuel e s

/-- Results that go back to the session. -/
def Yields (C : Chronicle) (w : Roles) (s : Store) : (t : Task) → t.Result → Prop
  | evaluate _, v => v.Founded C w s
  | evaluateAll _, vs => ∀ v ∈ vs, v.Founded C w s
  | evaluateOptional _, v => v.Founded C w s
  | evaluateSuperclass _ o, parent =>
    parent.isSome = o.isSome ∧ ∀ p, parent = some p → p.Founded C w s
  | call _ _, v => v.Founded C w s
  | execute _, x => x.Founded C w s
  | executeAll _, x => x.Founded C w s
  | executeLoop _ _, x => x.Founded C w s

/-- The calls that a call makes end well if they start well. -/
def Supported (C : Chronicle) (host : Host) (fuel : Nat) (m : Machine) (t : Task) : Prop :=
  ∀ {t₁ m₁ w₁}, Enters host fuel t m t₁ m₁ → m₁.Founded C w₁ → t₁.Founded C w₁ m₁ →
    Eval.Ends C w₁ (fun w₂ s₂ => t₁.Yields C w₂ s₂) (t₁.run host fuel) m₁

end Task

/-- An action that ends well and makes these calls on the way: they start on founded machines, and
what `dies` is when they end it is when all has ended. -/
structure Proceeds {α : Type} (C : Chronicle) (host : Host) (fuel : Nat) (w : Roles)
    (S : Task → Machine → Prop) (Q : Roles → Store → α → Prop) (x : Eval α) (m : Machine) :
    Prop where
  ends : Eval.Ends C w Q x m
  way : ∀ t m₁, S t m₁ →
    (∃ w₁, Follows w m.store w₁ m₁.store ∧ m₁.Founded C w₁ ∧ t.Founded C w₁ m₁) ∧
      (Machine.after (t.run host fuel m₁)).store.KeepsReceivers (Machine.after (x m)).store

section Combining

variable {C : Chronicle} {host : Host} {fuel : Nat} {w : Roles} {m : Machine} {α β : Type}
  {S : Task → Machine → Prop} {Q : Roles → Store → α → Prop} {R : Roles → Store → β → Prop}
  {x : Eval α}

namespace Proceeds

/-- An action that makes no calls. -/
lemma of_ends (h : Eval.Ends C w Q x m) : Proceeds C host fuel w (fun _ _ => False) Q x m :=
  ⟨h, fun _ _ hS => hS.elim⟩

lemma mono {T : Task → Machine → Prop} (h : Proceeds C host fuel w S Q x m)
    (hsub : ∀ t m₁, T t m₁ → S t m₁) : Proceeds C host fuel w T Q x m :=
  ⟨h.ends, fun t m₁ hT => h.way t m₁ (hsub t m₁ hT)⟩

/-- First an action that makes some calls, then one that makes others. -/
lemma bind {T : α → Machine → Task → Machine → Prop} {f : α → Eval β}
    (h : Proceeds C host fuel w S Q x m)
    (hf : ∀ a m₁ w₁, x m = .ok a m₁ → Leaves C w m w₁ m₁ → Q w₁ m₁.store a →
      Proceeds C host fuel w₁ (T a m₁) R (f a) m₁) :
    Proceeds C host fuel w (fun t m' => S t m' ∨ ∃ a m₁, x m = .ok a m₁ ∧ T a m₁ t m') R
      (x >>= f) m := by
  have hrest := fun a m₁ w₁ hx hl ha => (hf a m₁ w₁ hx hl ha).ends
  refine ⟨h.ends.bind hrest, ?_⟩
  rintro t m' (hS | ⟨a, m₁, hx, hT⟩)
  · obtain ⟨hstarts, hkeeps⟩ := h.way t m' hS
    exact ⟨hstarts, hkeeps.trans (h.ends.keepsReceivers_bind hrest)⟩
  · obtain ⟨w₁, hl, ha⟩ := h.ends.of_ok hx
    obtain ⟨⟨w₂, hfollow, hfounded⟩, hkeeps⟩ := (hf a m₁ w₁ hx hl ha).way t m' hT
    rw [EStateM.bind_of_ok hx]
    exact ⟨⟨w₂, hl.follows.trans hfollow, hfounded⟩, hkeeps⟩

/-- Nothing is called after the first action. -/
lemma bindEnds {f : α → Eval β} (h : Proceeds C host fuel w S Q x m)
    (hf : ∀ a m₁ w₁, x m = .ok a m₁ → Leaves C w m w₁ m₁ → Q w₁ m₁.store a →
      Eval.Ends C w₁ R (f a) m₁) : Proceeds C host fuel w S R (x >>= f) m :=
  (h.bind fun a m₁ w₁ hx hl ha => .of_ends (hf a m₁ w₁ hx hl ha)).mono fun _ _ => .inl

/-- First an action that leaves the machine as it is. -/
lemma step {f : α → Eval β} {a : α} (hx : x m = .ok a m)
    (h : Proceeds C host fuel w S R (f a) m) : Proceeds C host fuel w S R (x >>= f) m := by
  refine ⟨.step hx h.ends, fun t m₁ hS => ?_⟩
  rw [EStateM.bind_of_ok hx]
  exact h.way t m₁ hS

lemma within {frame : FrameId} (h : Proceeds C host fuel w S Q x { m with current := frame }) :
    Proceeds C host fuel w S Q (Eval.within frame x) m := by
  refine ⟨h.ends.within, fun t m₁ hS => ?_⟩
  obtain ⟨hstarts, hkeeps⟩ := h.way t m₁ hS
  refine ⟨hstarts, ?_⟩
  rw [Eval.within]
  cases hx : x { m with current := frame } with
  | ok a m₂ => rwa [hx] at hkeeps
  | error stop m₂ => rwa [hx] at hkeeps

end Proceeds

/-- A call that is made. -/
lemma Task.Supported.proceeds {t t₁ : Task} {m₁ : Machine} {w₁ : Roles}
    (sub : t.Supported C host fuel m) (hnext : Enters host fuel t m t₁ m₁) (h : m₁.Founded C w₁)
    (ht : t₁.Founded C w₁ m₁) :
    Proceeds C host fuel w₁ (fun t' m' => t' = t₁ ∧ m' = m₁) (fun w₂ s₂ => t₁.Yields C w₂ s₂)
      (t₁.run host fuel) m₁ := by
  refine ⟨sub hnext h ht, ?_⟩
  rintro t' m' ⟨rfl, rfl⟩
  exact ⟨⟨w₁, .refl _ _, h, ht⟩, .refl _⟩

end Combining

namespace Task

variable {C : Chronicle} {host : Host} {fuel : Nat} {w : Roles} {m : Machine}

/-- One level of the evaluator. -/
lemma evaluate_proceeds (e : Expr) (h : m.Founded C w) (ht : (evaluate e).Founded C w m)
    (sub : (evaluate e).Supported C host fuel m) :
    Proceeds C host fuel w (Enters host fuel (.evaluate e) m) (Value.Founded C)
      (GermanLox.evaluate host (fuel + 1) e) m := by
  obtain ⟨Γ, home, he, hnested⟩ := ht
  cases e with
  | literal i value =>
    refine (Proceeds.of_ends (.pure h ?_)).mono (by rintro _ _ ⟨⟩)
    cases value <;> trivial
  | grouping i e =>
    refine (sub.proceeds .grouping h ⟨Γ, home, he.grouping, hnested⟩).mono ?_
    rintro _ _ ⟨⟩
    exact ⟨rfl, rfl⟩
  | unary i op token e =>
    refine Proceeds.mono (.bindEnds (sub.proceeds .operand h ⟨Γ, home, he.unary, hnested⟩)
      fun v m₁ w₁ _ hl _ => hl.founded.unary op token v) ?_
    rintro _ _ ⟨⟩
    exact ⟨rfl, rfl⟩
  | binary i op token left right =>
    refine Proceeds.mono (.bind (sub.proceeds .binaryLeft h ⟨Γ, home, he.binary.1, hnested⟩)
      fun v m₁ w₁ hv hl _ => .bindEnds (sub.proceeds (.binaryRight hv) hl.founded
        ⟨Γ, home, he.binary.2, hl.nested hnested⟩)
      fun u m₂ w₂ _ hl₂ _ => hl₂.founded.binary op token v u) fun t₁ m' hnext => ?_
    cases hnext with
    | binaryLeft => exact .inl ⟨rfl, rfl⟩
    | binaryRight hv => exact .inr ⟨_, _, hv, rfl, rfl⟩
  | logical i op token left right =>
    refine Proceeds.mono (.bind (T := fun v m₁ t₁ m' =>
      op.isSettledBy v = false ∧ t₁ = .evaluate right ∧ m' = m₁)
      (sub.proceeds .logicalLeft h ⟨Γ, home, he.logical.1, hnested⟩)
      fun v m₁ w₁ hv hl hfounded => ?_) fun t₁ m' hnext => ?_
    · split
      · rename_i hsettled
        refine (Proceeds.of_ends (.pure hl.founded hfounded)).mono ?_
        rintro _ _ ⟨hopen, -⟩
        cases hsettled.symm.trans hopen
      · rename_i hopen
        exact (sub.proceeds (.logicalRight hv (by simpa using hopen)) hl.founded
          ⟨Γ, home, he.logical.2, hl.nested hnested⟩).mono fun _ _ hT => hT.2
    · cases hnext with
      | logicalLeft => exact .inl ⟨rfl, rfl⟩
      | logicalRight hv hopen => exact .inr ⟨_, _, hv, hopen, rfl, rfl⟩
  | var i name => exact (Proceeds.of_ends (h.lookUp i name)).mono (by rintro _ _ ⟨⟩)
  | assign i name value =>
    refine Proceeds.mono (.bindEnds (sub.proceeds .assigned h ⟨Γ, home, he.assign, hnested⟩)
      fun v m₁ w₁ _ hl hv => (hl.founded.assign he (hl.nested hnested) hv).bind
        fun _ m₂ w₂ _ hl₂ _ => .pure hl₂.founded (hv.follow hl₂.follows)) ?_
    rintro _ _ ⟨⟩
    exact ⟨rfl, rfl⟩
  | call i callee paren es =>
    refine Proceeds.mono (.bind (sub.proceeds .callee h ⟨Γ, home, he.call.1, hnested⟩)
      fun v m₁ w₁ hv hl hfounded => .bind (T := fun args m₂ t₁ m' =>
        ∃ f, v.callable? = some f ∧ args.length = f.arity ∧ t₁ = .call f args ∧ m' = m₂)
        (sub.proceeds (.arguments hv) hl.founded ⟨Γ, home, he.call.2, hl.nested hnested⟩)
        fun args m₂ w₂ hargs hl₂ hvalues => ?_) fun t₁ m' hnext => ?_
    · cases hf : v.callable? with
      | none => exact (Proceeds.of_ends (.fail hl₂.founded)).mono (by rintro _ _ ⟨f, ⟨⟩, -⟩)
      | some f =>
        have hcallable := (hfounded.callable? hf).follow hl₂.follows
        dsimp only
        split
        · rename_i harity
          refine (sub.proceeds (.call hv hargs hf harity) hl₂.founded ⟨hcallable, hvalues⟩).mono ?_
          rintro _ _ ⟨f', hf', -, rfl, rfl⟩
          cases hf'
          exact ⟨rfl, rfl⟩
        · rename_i harity
          refine (Proceeds.of_ends (.fail hl₂.founded)).mono ?_
          rintro _ _ ⟨f', hf', harity', -⟩
          cases hf'
          exact harity harity'
    · cases hnext with
      | callee => exact .inl ⟨rfl, rfl⟩
      | arguments hv => exact .inr ⟨_, _, hv, .inl ⟨rfl, rfl⟩⟩
      | call hv hargs hf harity =>
        exact .inr ⟨_, _, hv, .inr ⟨_, _, hargs, _, hf, harity, rfl, rfl⟩⟩
  | get i e name =>
    refine Proceeds.mono (.bindEnds (sub.proceeds .object h ⟨Γ, home, he.get, hnested⟩)
      fun v m₁ w₁ _ hl hv => ?_) ?_
    · cases v with
      | ofInstance j => exact hl.founded.property hv name
      | _ => exact .fail hl.founded
    · rintro _ _ ⟨⟩
      exact ⟨rfl, rfl⟩
  | set i e name value =>
    refine Proceeds.mono (.bind (T := fun v m₁ t₁ m' =>
      (∃ j, v = .ofInstance j) ∧ t₁ = .evaluate value ∧ m' = m₁)
      (sub.proceeds .target h ⟨Γ, home, he.set.1, hnested⟩) fun v m₁ w₁ hv hl _ => ?_)
      fun t₁ m' hnext => ?_
    · cases v with
      | ofInstance j =>
        refine Proceeds.mono (.bindEnds (sub.proceeds (.field hv) hl.founded
          ⟨Γ, home, he.set.2, hl.nested hnested⟩) fun u m₂ w₂ _ hl₂ hu =>
          (hl₂.founded.setField j name.lexeme hu).bind fun _ m₃ w₃ _ hl₃ _ =>
            .pure hl₃.founded (hu.follow hl₃.follows)) fun _ _ hT => hT.2
      | _ => exact (Proceeds.of_ends (.fail hl.founded)).mono (by rintro _ _ ⟨⟨j, ⟨⟩⟩, -⟩)
    · cases hnext with
      | target => exact .inl ⟨rfl, rfl⟩
      | field hv => exact .inr ⟨_, _, hv, ⟨_, rfl⟩, rfl, rfl⟩
  | this i keyword => exact (Proceeds.of_ends (h.lookUp i keyword)).mono (by rintro _ _ ⟨⟩)
  | super i keyword method =>
    exact (Proceeds.of_ends (h.superMethod i keyword method)).mono (by rintro _ _ ⟨⟩)

lemma evaluateAll_proceeds (es : List Expr) (h : m.Founded C w)
    (ht : (evaluateAll es).Founded C w m) (sub : (evaluateAll es).Supported C host fuel m) :
    Proceeds C host fuel w (Enters host fuel (.evaluateAll es) m)
      (fun w₁ s₁ vs => ∀ v ∈ vs, v.Founded C w₁ s₁)
      (GermanLox.evaluateAll host (fuel + 1) es) m := by
  obtain ⟨Γ, home, hes, hnested⟩ := ht
  cases es with
  | nil => exact (Proceeds.of_ends (.pure h (by simp))).mono (by rintro _ _ ⟨⟩)
  | cons e es =>
    rw [List.forall_mem_cons] at hes
    refine Proceeds.mono (.bind (sub.proceeds .first h ⟨Γ, home, hes.1, hnested⟩)
      fun v m₁ w₁ hv hl hfirst => .bindEnds (sub.proceeds (.others hv) hl.founded
        ⟨Γ, home, hes.2, hl.nested hnested⟩) fun vs m₂ w₂ _ hl₂ hothers => .pure hl₂.founded
          (List.forall_mem_cons.mpr ⟨Value.Founded.follow hfirst hl₂.follows, hothers⟩))
      fun t₁ m' hnext => ?_
    cases hnext with
    | first => exact .inl ⟨rfl, rfl⟩
    | others hv => exact .inr ⟨_, _, hv, rfl, rfl⟩

lemma evaluateOptional_proceeds (o : Option Expr) (h : m.Founded C w)
    (ht : (evaluateOptional o).Founded C w m) (sub : (evaluateOptional o).Supported C host fuel m) :
    Proceeds C host fuel w (Enters host fuel (.evaluateOptional o) m) (Value.Founded C)
      (GermanLox.evaluateOptional host (fuel + 1) o) m := by
  obtain ⟨Γ, home, ho, hnested⟩ := ht
  cases o with
  | none => exact (Proceeds.of_ends (.pure h trivial)).mono (by rintro _ _ ⟨⟩)
  | some e =>
    refine (sub.proceeds .given h ⟨Γ, home, ho e rfl, hnested⟩).mono ?_
    rintro _ _ ⟨⟩
    exact ⟨rfl, rfl⟩

lemma evaluateSuperclass_proceeds (name : Token) (o : Option Expr) (h : m.Founded C w)
    (ht : (evaluateSuperclass name o).Founded C w m)
    (sub : (evaluateSuperclass name o).Supported C host fuel m) :
    Proceeds C host fuel w (Enters host fuel (.evaluateSuperclass name o) m)
      (fun w₁ s₁ parent => parent.isSome = o.isSome ∧ ∀ p, parent = some p → p.Founded C w₁ s₁)
      (GermanLox.evaluateSuperclass host (fuel + 1) name o) m := by
  obtain ⟨Γ, home, ho, hnested⟩ := ht
  cases o with
  | none => exact (Proceeds.of_ends (.pure h ⟨rfl, by simp⟩)).mono (by rintro _ _ ⟨⟩)
  | some e =>
    refine Proceeds.mono (.bindEnds (sub.proceeds .superclass h ⟨Γ, home, ho e rfl, hnested⟩)
      fun v m₁ w₁ _ hl hv => ?_) ?_
    · cases v with
      | ofClass c =>
        refine .pure hl.founded ⟨rfl, ?_⟩
        rintro p ⟨⟩
        exact hv
      | _ => exact .fail hl.founded
    · rintro _ _ ⟨⟩
      exact ⟨rfl, rfl⟩

/-- Names of parameters are no names of receivers or superclasses. -/
lemma parameters_ne {params : List Token} (h : ∀ t ∈ params, t.IsName) (args : List Value) :
    ∀ b ∈ (params.map Token.lexeme).zip args, b.1 ≠ thisName ∧ b.1 ≠ superName := by
  intro b hb
  obtain ⟨t, ht, hname⟩ := List.mem_map.mp (List.of_mem_zip hb).1
  rw [← hname]
  exact ⟨(h t ht).ne_this, (h t ht).ne_super⟩

lemma call_proceeds (f : Callable) (args : List Value) (h : m.Founded C w)
    (ht : (call f args).Founded C w m) (sub : (call f args).Supported C host fuel m) :
    Proceeds C host fuel w (Enters host fuel (.call f args) m) (Value.Founded C)
      (GermanLox.call host (fuel + 1) f args) m := by
  obtain ⟨hf, hargs⟩ := ht
  cases f with
  | builtin b =>
    cases b
    exact (Proceeds.of_ends (h.readClock host)).mono (by rintro _ _ ⟨⟩)
  | closure c =>
    obtain ⟨Γ, home, hnested, hdecl⟩ := hf.code
    obtain ⟨hparams, ρ, hbody⟩ := hdecl.body
    refine Proceeds.mono (.bind (.of_ends (h.newFrame c.frame)) fun frame m₁ w₁ hframe hl hnew =>
      .bind (.of_ends (hl.founded.defineAll hnew.1 hnew.2.1 (parameters_ne hparams args)
        fun b hb => (hargs b.2 (List.of_mem_zip hb).2).follow hl.follows))
      fun _ m₂ w₂ hdefine hl₂ _ => .bindEnds (.within (sub.proceeds (.body hframe hdefine)
        ⟨hl₂.founded.store, hl₂.founded.table⟩ ⟨_, home, hbody, ?_⟩))
      fun x m₃ w₃ _ hl₃ hx => hl₃.founded.callResult c hx) fun t₁ m' hnext => ?_
    · exact .scope (hl₂.follows.lt hnew.1) ((hl₂.roles _ hnew.1).trans hnew.2.1) rfl
        ((hl₂.retains.store.link _ hnew.1).trans hnew.2.2)
        (hnested.follow (hl.follows.trans hl₂.follows))
    · cases hnext with
      | body hframe hdefine =>
        exact .inr ⟨_, _, hframe, .inr ⟨_, _, hdefine, rfl, rfl⟩⟩
  | ofClass c =>
    refine Proceeds.mono (.bind (T := fun i m₁ t₁ m' => ∃ init bound, c.initializer? = some init ∧
      Eval.bind init i m₁ = .ok bound m' ∧ t₁ = .call (.closure bound) args)
      (.of_ends (h.newInstance hf)) fun i m₁ w₁ hinstance hl hi => ?_) fun t₁ m' hnext => ?_
    · cases hinit : c.initializer? with
      | none =>
        refine (Proceeds.of_ends (.pure hl.founded hi)).mono ?_
        rintro _ _ ⟨init, bound, ⟨⟩, -⟩
      | some init =>
        obtain ⟨k, hk, hown⟩ := (Class.Founded.follow hf hl.follows).findMethod? hinit
        refine Proceeds.mono (.bind (.of_ends (hl.founded.bind hk hown hi))
          fun bound m₂ w₂ hbound hl₂ hfounded => .bindEnds (sub.proceeds
            (.initializer hinstance hinit hbound) hl₂.founded ⟨hfounded, fun v hv =>
              (hargs v hv).follow (hl.follows.trans hl₂.follows)⟩)
          fun _ m₃ w₃ _ hl₃ _ => .pure hl₃.founded
            (hl₃.follows.instance_lt (hl₂.follows.instance_lt hi))) ?_
        rintro _ m₂ ⟨init', bound, hinit', hbound, rfl⟩
        cases hinit'
        exact .inr ⟨bound, m₂, hbound, rfl, rfl⟩
    · cases hnext with
      | initializer hinstance hinit hbound =>
        exact .inr ⟨_, _, hinstance, _, _, hinit, hbound, rfl⟩

/-- A statement leaves frames nested like the scopes with the name that it declares. -/
lemma nested_after {s : Stmt} {Γ Γ₁ : Layers} {home : Option Home}
    (hs : s.Belongs C Γ home Γ₁) (hnested : Nested w m.store m.current Γ home) :
    Nested w m.store m.current Γ₁ home := by
  rcases hs.scopes_after with rfl | ⟨n, n', hn, rfl⟩
  · exact hnested
  · exact hnested.enter hn true

lemma classDecl_ends {K : ClassDecl} {Γ Γ₁ : Layers} {home : Option Home}
    (hK : K.stmt.Belongs C Γ home Γ₁) (hnested : Nested w m.store m.current Γ home)
    (hrec : (execute K.stmt).Recorded C host (fuel + 1) m) {parent : Option Class} {m₁ : Machine}
    {w₁ : Roles}
    (hparent : GermanLox.evaluateSuperclass host fuel K.name K.superclass m = .ok parent m₁)
    (hl : Leaves C w m w₁ m₁) (hsome : parent.isSome = K.superclass.isSome)
    (hfounded : ∀ p, parent = some p → p.Founded C w₁ m₁.store) :
    Eval.Ends C w₁ (fun _ _ _ => True) (declareClass K.name parent K.methods) m₁ := by
  refine hl.founded.declareClass hK (hl.nested hnested) hfounded hsome fun m₂ c hdeclare hc => ?_
  refine hrec fuel K m parent c .refl ⟨⟨m₁, hparent⟩, m₂, ?_, ?_⟩
  · exact EStateM.bind_eq_of_ok hparent (EStateM.bind_eq_of_ok hdeclare rfl)
  · rw [← hl.retains.current]
    exact hc

lemma execute_proceeds (s : Stmt) (h : m.Founded C w) (ht : (execute s).Founded C w m)
    (hrec : (execute s).Recorded C host (fuel + 1) m)
    (sub : (execute s).Supported C host fuel m) :
    Proceeds C host fuel w (Enters host fuel (.execute s) m) (Completion.Founded C)
      (GermanLox.execute host (fuel + 1) s) m := by
  obtain ⟨Γ, home, Γ₁, hs, hnested⟩ := ht
  cases s with
  | expression e =>
    refine Proceeds.mono (.bindEnds (sub.proceeds .expression h ⟨Γ, home, hs.expression, hnested⟩)
      fun _ m₁ w₁ _ hl _ => .pure hl.founded trivial) ?_
    rintro _ _ ⟨⟩
    exact ⟨rfl, rfl⟩
  | print e =>
    refine Proceeds.mono (.bindEnds (sub.proceeds .print h ⟨Γ, home, hs.print, hnested⟩)
      fun v m₁ w₁ _ hl _ => (hl.founded.print host v).bind fun _ m₂ w₂ _ hl₂ _ =>
        .pure hl₂.founded trivial) ?_
    rintro _ _ ⟨⟩
    exact ⟨rfl, rfl⟩
  | varDecl name o =>
    obtain ⟨hname, hdeclares, ho⟩ := hs.varDecl
    have hrole := hnested.role_of_declares h.store.role hdeclares
    have hlt := hnested.lt h.store.globals
    refine Proceeds.mono (.bindEnds (sub.proceeds .varDecl h
      ⟨_, home, ho, hnested.enter hdeclares false⟩) fun v m₁ w₁ _ hl hv => .step rfl ?_) ?_
    · rw [hl.retains.current]
      exact (hl.founded.define (hl.follows.lt hlt) ((hl.roles _ hlt).trans hrole) hname.ne_this
        hname.ne_super hv).bind fun _ m₂ w₂ _ hl₂ _ => .pure hl₂.founded trivial
    · rintro _ _ ⟨⟩
      exact ⟨rfl, rfl⟩
  | block body =>
    obtain ⟨ρ, hbody⟩ := hs.block
    refine .step rfl (Proceeds.mono (.bind (.of_ends (h.newFrame m.current))
      fun frame m₁ w₁ hframe hl hnew =>
        .within (sub.proceeds (.block hframe) ⟨hl.founded.store, hl.founded.table⟩
          ⟨_, home, hbody, .scope hnew.1 hnew.2.1 rfl hnew.2.2 (hnested.follow hl.follows)⟩))
      fun t₁ m' hnext => ?_)
    cases hnext with
    | block hframe => exact .inr ⟨_, _, hframe, rfl, rfl⟩
  | ifElse e s o =>
    obtain ⟨he, hthen, helse⟩ := hs.ifElse
    refine Proceeds.mono (.bind (T := fun v m₁ t₁ m' => m' = m₁ ∧
      (v.isTruthy = true ∧ t₁ = .execute s ∨
        v.isTruthy = false ∧ ∃ u, o = some u ∧ t₁ = .execute u))
      (sub.proceeds .condition h ⟨Γ, home, he, hnested⟩) fun v m₁ w₁ hv hl _ => ?_)
      fun t₁ m' hnext => ?_
    · split
      · rename_i htrue
        refine (sub.proceeds (.thenBranch hv htrue) hl.founded
          ⟨Γ, home, Γ, hthen, hl.nested hnested⟩).mono ?_
        rintro _ _ ⟨rfl, ⟨-, rfl⟩ | ⟨hfalse, -⟩⟩
        · exact ⟨rfl, rfl⟩
        · cases htrue.symm.trans hfalse
      · rename_i hnot
        have hfalse : v.isTruthy = false := by simpa using hnot
        cases o with
        | none =>
          refine (Proceeds.of_ends (.pure hl.founded trivial)).mono ?_
          rintro _ _ ⟨rfl, ⟨htrue, -⟩ | ⟨-, u, ⟨⟩, -⟩⟩
          exact hnot htrue
        | some u =>
          refine (sub.proceeds (.elseBranch hv hfalse) hl.founded
            ⟨Γ, home, Γ, helse u rfl, hl.nested hnested⟩).mono ?_
          rintro _ _ ⟨rfl, ⟨htrue, -⟩ | ⟨-, u', hu, rfl⟩⟩
          · exact absurd htrue hnot
          · cases hu
            exact ⟨rfl, rfl⟩
    · cases hnext with
      | condition => exact .inl ⟨rfl, rfl⟩
      | thenBranch hv htrue => exact .inr ⟨_, _, hv, rfl, .inl ⟨htrue, rfl⟩⟩
      | elseBranch hv hfalse => exact .inr ⟨_, _, hv, rfl, .inr ⟨hfalse, _, rfl, rfl⟩⟩
  | loop e s =>
    refine (sub.proceeds .loop h ⟨Γ, home, hs.loop.1, hs.loop.2, hnested⟩).mono ?_
    rintro _ _ ⟨⟩
    exact ⟨rfl, rfl⟩
  | funDecl decl =>
    obtain ⟨hname, hdeclares, hdecl⟩ := hs.funDecl
    have hrole := hnested.role_of_declares h.store.role hdeclares
    have hlt := hnested.lt h.store.globals
    refine .mono (.of_ends (.step rfl ((h.close hdecl (hnested.enter hdeclares true)).bind
      fun c m₁ w₁ _ hl hc => ?_))) (by rintro _ _ ⟨⟩)
    have hrole₁ := (hl.roles _ hlt).trans hrole
    exact (hl.founded.define (v := .closure c) (hl.follows.lt hlt) hrole₁ hname.ne_this
      hname.ne_super hc).bind fun _ m₂ w₂ _ hl₂ _ => .pure hl₂.founded trivial
  | ret token o =>
    refine Proceeds.mono (.bindEnds (sub.proceeds .ret h ⟨Γ, home, hs.ret, hnested⟩)
      fun v m₁ w₁ _ hl hv => .pure hl.founded hv) ?_
    rintro _ _ ⟨⟩
    exact ⟨rfl, rfl⟩
  | classDecl name superclass methods =>
    obtain ⟨-, -, hsuperclass, -⟩ := Stmt.Belongs.classDecl (K := ⟨name, superclass, methods⟩) hs
    refine Proceeds.mono (.bindEnds (sub.proceeds .classDecl h ⟨Γ, home, hsuperclass, hnested⟩)
      fun parent m₁ w₁ hparent hl hfounded => (classDecl_ends (K := ⟨name, superclass, methods⟩) hs
        hnested hrec hparent hl hfounded.1 hfounded.2).bind fun _ m₂ w₂ _ hl₂ _ =>
          .pure hl₂.founded trivial) ?_
    rintro _ _ ⟨⟩
    exact ⟨rfl, rfl⟩

lemma executeAll_proceeds (ss : List Stmt) (h : m.Founded C w) (ht : (executeAll ss).Founded C w m)
    (sub : (executeAll ss).Supported C host fuel m) :
    Proceeds C host fuel w (Enters host fuel (.executeAll ss) m) (Completion.Founded C)
      (GermanLox.executeAll host (fuel + 1) ss) m := by
  obtain ⟨Γ, home, hss, hnested⟩ := ht
  cases ss with
  | nil => exact (Proceeds.of_ends (.pure h trivial)).mono (by rintro _ _ ⟨⟩)
  | cons s ss =>
    obtain ⟨Γ₁, hs, hrest⟩ := hss.cons
    refine Proceeds.mono (.bind (T := fun x m₁ t₁ m' =>
      x = .normal ∧ t₁ = .executeAll ss ∧ m' = m₁)
      (sub.proceeds .statement h ⟨Γ, home, Γ₁, hs, hnested⟩) fun x m₁ w₁ hx hl hfounded => ?_)
      fun t₁ m' hnext => ?_
    · cases x with
      | normal =>
        exact (sub.proceeds (.statements hx) hl.founded
          ⟨Γ₁, home, hrest, nested_after hs (hl.nested hnested)⟩).mono fun _ _ hT => hT.2
      | returned v =>
        exact (Proceeds.of_ends (.pure hl.founded hfounded)).mono (by rintro _ _ ⟨⟨⟩, -⟩)
    · cases hnext with
      | statement => exact .inl ⟨rfl, rfl⟩
      | statements hx => exact .inr ⟨_, _, hx, rfl, rfl, rfl⟩

lemma executeLoop_proceeds (e : Expr) (s : Stmt) (h : m.Founded C w)
    (ht : (executeLoop e s).Founded C w m) (sub : (executeLoop e s).Supported C host fuel m) :
    Proceeds C host fuel w (Enters host fuel (.executeLoop e s) m) (Completion.Founded C)
      (GermanLox.executeLoop host (fuel + 1) e s) m := by
  obtain ⟨Γ, home, he, hs, hnested⟩ := ht
  refine Proceeds.mono (.bind (T := fun v m₁ t₁ m' => v.isTruthy = true ∧
    (t₁ = .execute s ∧ m' = m₁ ∨
      GermanLox.execute host fuel s m₁ = .ok .normal m' ∧ t₁ = .executeLoop e s))
    (sub.proceeds .loopCondition h ⟨Γ, home, he, hnested⟩) fun v m₁ w₁ hv hl _ => ?_)
    fun t₁ m' hnext => ?_
  · split
    · rename_i htrue
      refine Proceeds.mono (.bind (T := fun x m₂ t₁ m' =>
        x = .normal ∧ t₁ = .executeLoop e s ∧ m' = m₂)
        (sub.proceeds (.loopBody hv htrue) hl.founded ⟨Γ, home, Γ, hs, hl.nested hnested⟩)
        fun x m₂ w₂ hx hl₂ hfounded => ?_) ?_
      · cases x with
        | normal =>
          exact (sub.proceeds (.again hv htrue hx) hl₂.founded
            ⟨Γ, home, he, hs, hl₂.nested (hl.nested hnested)⟩).mono fun _ _ hT => hT.2
        | returned v =>
          exact (Proceeds.of_ends (.pure hl₂.founded hfounded)).mono (by rintro _ _ ⟨⟨⟩, -⟩)
      · rintro _ _ ⟨-, hbody | ⟨hx, rfl⟩⟩
        · exact .inl hbody
        · exact .inr ⟨_, _, hx, rfl, rfl, rfl⟩
    · rename_i hfalse
      refine (Proceeds.of_ends (.pure hl.founded trivial)).mono ?_
      rintro _ _ ⟨htrue, -⟩
      exact hfalse htrue
  · cases hnext with
    | loopCondition => exact .inl ⟨rfl, rfl⟩
    | loopBody hv htrue => exact .inr ⟨_, _, hv, htrue, .inl ⟨rfl, rfl⟩⟩
    | again hv htrue hbody => exact .inr ⟨_, _, hv, htrue, .inr ⟨hbody, rfl⟩⟩

/-- A call that starts well proceeds well if the calls that it makes do. -/
lemma proceeds (t : Task) (h : m.Founded C w) (ht : t.Founded C w m)
    (hrec : t.Recorded C host (fuel + 1) m) (sub : t.Supported C host fuel m) :
    Proceeds C host fuel w (Enters host fuel t m) (fun w₁ s₁ => t.Yields C w₁ s₁)
      (t.run host (fuel + 1)) m := by
  cases t with
  | evaluate e => exact evaluate_proceeds e h ht sub
  | evaluateAll es => exact evaluateAll_proceeds es h ht sub
  | evaluateOptional o => exact evaluateOptional_proceeds o h ht sub
  | evaluateSuperclass name o => exact evaluateSuperclass_proceeds name o h ht sub
  | call f args => exact call_proceeds f args h ht sub
  | execute s => exact execute_proceeds s h ht hrec sub
  | executeAll ss => exact executeAll_proceeds ss h ht sub
  | executeLoop e s => exact executeLoop_proceeds e s h ht sub

lemma Recorded.enter {t t₁ : Task} {m₁ : Machine} (h : t.Recorded C host (fuel + 1) m)
    (hnext : Enters host fuel t m t₁ m₁) : t₁.Recorded C host fuel m₁ :=
  fun n K m₂ parent c hreach hmakes => h n K m₂ parent c (hreach.head hnext) hmakes

/-- A call of founded code ends well. -/
theorem Founded.ends {t : Task} (ht : t.Founded C w m) (h : m.Founded C w)
    (hrec : t.Recorded C host fuel m) :
    Eval.Ends C w (fun w₁ s₁ => t.Yields C w₁ s₁) (t.run host fuel) m := by
  induction fuel generalizing t m w with
  | zero => cases t <;> exact .outOfFuel h
  | succ fuel ih =>
    exact (proceeds t h ht hrec fun hnext h₁ ht₁ => ih ht₁ h₁ (hrec.enter hnext)).ends

/-- So does it make its calls on the way. -/
theorem Founded.proceeds {t : Task} (ht : t.Founded C w m) (h : m.Founded C w)
    (hrec : t.Recorded C host (fuel + 1) m) :
    Proceeds C host fuel w (Enters host fuel t m) (fun w₁ s₁ => t.Yields C w₁ s₁)
      (t.run host (fuel + 1)) m :=
  Task.proceeds t h ht hrec fun hnext h₁ ht₁ => ht₁.ends h₁ (hrec.enter hnext)

end Task

namespace Reaches

variable {C : Chronicle} {host : Host} {fuel n k : Nat} {w : Roles} {t t₁ t₂ : Task}
  {m m₁ m₂ : Machine}

lemma trans (h : Reaches host fuel t m n t₁ m₁) (h₁ : Reaches host n t₁ m₁ k t₂ m₂) :
    Reaches host fuel t m k t₂ m₂ := by
  induction h₁ with
  | refl => exact h
  | step _ hnext ih => exact .step ih hnext

lemma recorded (h : Reaches host fuel t m n t₁ m₁) (hrec : t.Recorded C host fuel m) :
    t₁.Recorded C host n m₁ :=
  fun n K m₂ parent c hreach hmakes => hrec n K m₂ parent c (h.trans hreach) hmakes

/-- Wherever a run of founded code comes by, code and machine are founded. What `dies` is in a frame
at the start it is there, and what it is there it is at the end. -/
theorem founded (h : Reaches host fuel t m n t₁ m₁) (hm : m.Founded C w) (ht : t.Founded C w m)
    (hrec : t.Recorded C host fuel m) :
    (∃ w₁, Follows w m.store w₁ m₁.store ∧ m₁.Founded C w₁ ∧ t₁.Founded C w₁ m₁) ∧
      (Machine.after (t₁.run host n m₁)).store.KeepsReceivers
        (Machine.after (t.run host fuel m)).store := by
  induction h with
  | refl => exact ⟨⟨w, .refl _ _, hm, ht⟩, .refl _⟩
  | step hreach hnext ih =>
    obtain ⟨⟨w₁, hfollow, hm₁, ht₁⟩, hkeeps⟩ := ih
    obtain ⟨⟨w₂, hfollow₂, hfounded⟩, hkeeps₂⟩ :=
      (ht₁.proceeds hm₁ (hreach.recorded hrec)).way _ _ hnext
    exact ⟨⟨w₂, hfollow.trans hfollow₂, hfounded⟩, hkeeps₂.trans hkeeps⟩

end Reaches

end GermanLox
