import GermanLox.Proofs.Run.Actions

/-!
# Functions, classes and instances alike

What calls, classes, instances and the output do to machines alike.
-/

namespace GermanLox

/-- What can be called, alike. -/
inductive CallableLike (E : Setting) (w : Labels) (s : Store) : Callable → Callable → Prop
  | closure {c c'} (h : FunctionValueLike E w s c c') :
    CallableLike E w s (.closure c) (.closure c')
  | builtin {b} : CallableLike E w s (.builtin b) (.builtin b)
  | ofClass {c c'} (h : ClassLike E w s c c') : CallableLike E w s (.ofClass c) (.ofClass c')

section Values

variable {E : Setting} {w : Labels} {s s' : Store}

lemma ClosureLike.arity_eq {inner : List Layer} {c c' : Closure}
    (h : ClosureLike E w s inner c c') : c'.arity = c.arity := by
  obtain ⟨σ, Γ, -, -, hcode⟩ := h.code
  exact hcode.arity_eq

lemma ClosureLike.name_eq {inner : List Layer} {c c' : Closure}
    (h : ClosureLike E w s inner c c') : c'.name = c.name := by
  obtain ⟨σ, Γ, -, -, hcode⟩ := h.code
  exact hcode.name_eq

lemma findSome_like {ds ds' : List ClassDefinition} (h : List.Forall₂ (DefinitionLike E w s) ds ds')
    (n : String) : Option.Rel (MethodLike E w s) (ds.findSome? (·.methods[n]?))
      (ds'.findSome? (·.methods[n]?)) := by
  induction h with
  | nil => exact .none
  | @cons d d' ds ds' hd _ ih =>
    rw [List.findSome?_cons, List.findSome?_cons]
    obtain ⟨hn, hn'⟩ | ⟨c, c', hn, hn', hc⟩ := (hd.methods n).none_or_some
    · rw [hn, hn']
      exact ih
    · rw [hn, hn']
      exact .some hc

namespace ClassLike

variable {c c' : Class}

lemma findMethod? (h : ClassLike E w s c c') (n : String) :
    Option.Rel (MethodLike E w s) (c.findMethod? n) (c'.findMethod? n) :=
  findSome_like h n

lemma own (h : ClassLike E w s c c') : DefinitionLike E w s c.own c'.own := by
  cases h with
  | cons hd _ => exact hd

lemma arity_eq (h : ClassLike E w s c c') : c'.arity = c.arity := by
  unfold Class.arity Class.initializer?
  obtain ⟨hn, hn'⟩ | ⟨init, init', hn, hn', hm⟩ := (h.findMethod? initializerName).none_or_some
  · rw [hn, hn']
  · rw [hn, hn']
    exact hm.arity_eq

end ClassLike

lemma CallableLike.arity_eq {f f' : Callable} (h : CallableLike E w s f f') :
    f'.arity = f.arity := by
  cases h with
  | closure h => exact h.arity_eq
  | builtin => rfl
  | ofClass h => exact h.arity_eq

namespace ValueLike

variable {v v' u u' : Value}

lemma isTruthy_eq (h : ValueLike E w s v v') : v'.isTruthy = v.isTruthy := by
  cases h <;> rfl

lemma callable? (h : ValueLike E w s v v') :
    Option.Rel (CallableLike E w s) v.callable? v'.callable? := by
  cases h with
  | closure h => exact .some (.closure h)
  | builtin => exact .some .builtin
  | ofClass h => exact .some (.ofClass h)
  | _ => exact .none

lemma equals_eq (h : ValueLike E w s v v') (hu : ValueLike E w s u u') :
    v'.equals u' = v.equals u := by
  cases h with
  | closure h =>
    cases hu with
    | closure hu => simp only [Value.equals, h.identity, hu.identity]
    | _ => rfl
  | ofClass h =>
    cases hu with
    | ofClass hu => simp only [Value.equals, h.own.identity, hu.own.identity]
    | _ => rfl
  | _ => cases hu <;> rfl

/-- Values alike look the same. -/
lemma display_eq (h : ValueLike E w s v v') (hs : StoreLike E w s s') :
    s'.display v' = s.display v := by
  cases h with
  | closure h => simp only [Store.display, h.name_eq]
  | ofClass h => exact h.own.name
  | @ofInstance i =>
    simp only [Store.display]
    obtain ⟨hn, hn'⟩ | ⟨o, o', hn, hn', ho⟩ := (hs.instances i).none_or_some
    · rw [hn, hn']
    · rw [hn, hn']
      simp only [Option.map_some, Option.getD_some, Class.name, ho.ofClass.own.name]
  | @bool b => cases b <;> rfl
  | _ => rfl

end ValueLike

namespace StoreLike

lemma field? (h : StoreLike E w s s') (i : InstanceId) (n : String) :
    Option.Rel (ValueLike E w s) (s.field? i n) (s'.field? i n) := by
  unfold Store.field?
  obtain ⟨hn, hn'⟩ | ⟨o, o', hn, hn', ho⟩ := (h.instances i).none_or_some
  · rw [hn, hn']
    exact .none
  · rw [hn, hn']
    exact ho.fields n

lemma method? (h : StoreLike E w s s') (i : InstanceId) (n : String) :
    Option.Rel (MethodLike E w s) (s.method? i n) (s'.method? i n) := by
  unfold Store.method?
  obtain ⟨hn, hn'⟩ | ⟨o, o', hn, hn', ho⟩ := (h.instances i).none_or_some
  · rw [hn, hn']
    exact .none
  · rw [hn, hn']
    exact ho.ofClass.findMethod? n

end StoreLike

end Values

namespace Agree

variable {E : Setting} {w : Labels} {m m' : Machine}

lemma print (h : Agree E w m m') (host : Host) {v v' : Value} (hv : ValueLike E w m.store v v') :
    OutcomeLike E w m (fun w₁ s₁ _ _ => w₁ = w ∧ s₁ = m.store) (Eval.print host v m)
      (Eval.print host v' m') := by
  refine .ok (Grows.refl w m.store) rfl ⟨h.store, h.current, h.left, h.right, h.nextIdentity,
    h.readings, congrArg (· + 1) h.writes, ?_⟩ ⟨rfl, rfl⟩
  simp only [h.writes, h.output, hv.display_eq h.store]

lemma readClock (h : Agree E w m m') (host : Host) :
    OutcomeLike E w m (ValueLike E) (Eval.readClock host m) (Eval.readClock host m') := by
  unfold Eval.readClock
  rw [h.readings]
  exact .ok (Grows.refl w m.store) rfl ⟨h.store, h.current, h.left, h.right, h.nextIdentity,
    rfl, h.writes, h.output⟩ .number

lemma newInstance (h : Agree E w m m') {c c' : Class} (hc : ClassLike E w m.store c c') :
    OutcomeLike E w m (fun _ _ i i' => i' = i) (Eval.newInstance c m) (Eval.newInstance c' m') :=
  .ok (grows_instances w m.store _) rfl (h.withStore (h.store.newInstance hc))
    h.store.instances_size

lemma setField (h : Agree E w m m') {v v' : Value} (hv : ValueLike E w m.store v v')
    (i : InstanceId) (n : String) :
    OutcomeLike E w m (fun _ _ _ _ => True) (Eval.change (Store.setField i n v) m)
      (Eval.change (Store.setField i n v') m') :=
  .ok (grows_instances w m.store _) rfl (h.withStore (h.store.setField hv i n)) trivial

/-- A method with its receiver is a function. -/
lemma bind (h : Agree E w m m') {c c' : Closure} (hc : MethodLike E w m.store c c')
    (i : InstanceId) :
    OutcomeLike E w m (fun w₁ s₁ b b' => FunctionValueLike E w₁ s₁ b b' ∧ b.decl = c.decl)
      (Eval.bind c i m) (Eval.bind c' i m') := by
  obtain ⟨σ, Γ, hfits, halign, hcode⟩ := hc.code
  unfold Eval.bind
  rw [hc.frame, hc.isInitializer]
  refine (h.newFrame c.frame .receiver).bind ?_
  rintro w₁ m₁ m₁' f f' - - h₁ ⟨rfl, hstore₁, rfl, rfl⟩
  have halign₁ := halign.newFrame .receiver
  rw [← hstore₁] at halign₁
  refine (h₁.define halign₁.1 ?_ .ofInstance ?_ ?_).bind ?_
  · simp [Label.rename]
  · exact fun _ _ => ⟨i, rfl⟩
  · intro hlabel
    simp at hlabel
  rintro w₂ m₂ m₂' _ _ - - h₂ ⟨rfl, hstore₂⟩
  have halign₂ := halign₁.define thisName (.ofInstance i)
  rw [← hstore₂] at halign₂
  refine (h₂.close c.decl c'.decl m.store.frames.size c.isInitializer).mono ?_
  rintro w₃ s₃ _ _ - ⟨rfl, rfl, k, rfl, rfl⟩
  exact ⟨⟨⟨rfl, rfl, rfl, σ, Layer.receiver :: Γ, hfits, halign₂, hcode⟩,
    fun _ => ⟨halign₂.1, halign₂.2.1⟩⟩, rfl⟩

/-- A bound method as a value. -/
lemma bindValue (h : Agree E w m m') {c c' : Closure} (hc : MethodLike E w m.store c c')
    (i : InstanceId) :
    OutcomeLike E w m (ValueLike E) ((Value.closure <$> Eval.bind c i) m)
      ((Value.closure <$> Eval.bind c' i) m') := by
  rw [map_eq_pure_bind, map_eq_pure_bind]
  exact (h.bind hc i).bind fun _ _ _ _ _ _ _ h₁ hb => .pure h₁ (.closure hb.1)

lemma property (h : Agree E w m m') {t t' : Token} (ht : E.Spelled t t') (i : InstanceId) :
    OutcomeLike E w m (ValueLike E) (Eval.property i t m) (Eval.property i t' m') := by
  obtain ⟨hf, hf'⟩ | ⟨v, v', hf, hf', hv⟩ := (h.store.field? i t.lexeme).none_or_some
  · rw [← ht.2] at hf'
    obtain ⟨hn, hn'⟩ | ⟨c, c', hn, hn', hc⟩ := (h.store.method? i t.lexeme).none_or_some
    · rw [← ht.2] at hn'
      rw [Eval.property_of_none hf hn, Eval.property_of_none hf' hn']
      exact h.fail ht
    · rw [← ht.2] at hn'
      rw [Eval.property_of_method hf hn, Eval.property_of_method hf' hn']
      exact h.bindValue hc i
  · rw [← ht.2] at hf'
    rw [Eval.property_of_field hf, Eval.property_of_field hf']
    exact .pure h hv

/-- Where `dies` stands, the receiver is an instance. -/
lemma receiver (h : Agree E w m m') {Γ : Layers} (halign : Aligned w m.store m.current Γ)
    {i i' : ExprId} {t t' : Token} {d : Nat} (ht : t.lexeme = thisName)
    (ht' : t'.lexeme = thisName) (hentry : E.entry i i' (some d))
    (hlayer : Γ[d]? = some Layer.receiver) :
    OutcomeLike E w m (ValueLike E) (Eval.lookUp i t m) (Eval.lookUp i' t' m') := by
  obtain ⟨g, hg, -, hlabel, hbound, -⟩ := halign.frame hlayer
  obtain ⟨v, hv⟩ := Option.isSome_iff_exists.mp (hbound thisName (by
    simp [Layer.receiver, Layer.enter]))
  obtain ⟨v', hv', hlike⟩ := h.store.exists_binding hv
  rw [hlabel] at hv'
  have hleft : m.store.getAt? m.current d t.lexeme = some v := by
    rw [Store.getAt?, hg, ht]
    exact hv
  have hright : m'.store.getAt? m'.current d t'.lexeme = some v' := by
    rw [Store.getAt?, h.current, h.store.ancestor?_eq, hg, ht']
    exact hv'
  rw [Eval.lookUp_of_some (h.left _ _ _ hentry), Eval.lookUp_of_some (h.right _ _ _ hentry),
    hleft, hright]
  exact .pure h hlike

/-- Where `super` stands, the superclass is a class and, one frame further in, the receiver is an
instance. -/
lemma superclass_and_receiver (h : Agree E w m m') {Γ : Layers}
    (halign : Aligned w m.store m.current Γ) {d : Nat}
    (hlayer : Γ[d + 1]? = some Layer.superclass) (hinner : Γ[d]? = some Layer.receiver) :
    ∃ g f parent i, m.store.ancestor? m.current (d + 1) = some g ∧
      m.store.ancestor? m.current d = some f ∧ w g = .superclass ∧ w f = .receiver ∧
      m.store.local? g superName = some (.ofClass parent) ∧
      m.store.local? f thisName = some (.ofInstance i) := by
  obtain ⟨g, hg, -, hlabel, hbound, -⟩ := halign.frame hlayer
  obtain ⟨f, hf, -, hlabel', hbound', -⟩ := halign.frame hinner
  obtain ⟨v, hv⟩ := Option.isSome_iff_exists.mp (hbound superName (by
    simp [Layer.superclass, Layer.enter]))
  obtain ⟨u, hu⟩ := Option.isSome_iff_exists.mp (hbound' thisName (by
    simp [Layer.receiver, Layer.enter]))
  obtain ⟨parent, rfl⟩ := h.store.superclass g v hlabel hv
  obtain ⟨i, rfl⟩ := h.store.receiver f u hlabel' hu
  exact ⟨g, f, parent, i, hg, hf, hlabel, hlabel', hv, hu⟩

lemma superMethod (h : Agree E w m m') {Γ : Layers} (halign : Aligned w m.store m.current Γ)
    {i i' : ExprId} {t t' method method' : Token} {d : Nat}
    (hentry : E.entry i i' (some (d + 1))) (hlayer : Γ[d + 1]? = some Layer.superclass)
    (hinner : Γ[d]? = some Layer.receiver) (hmethod : E.Spelled method method') :
    OutcomeLike E w m (ValueLike E) (Eval.superMethod i t method m)
      (Eval.superMethod i' t' method' m') := by
  obtain ⟨g, f, parent, r, hg, hf, hlabel, hlabel', hv, hu⟩ :=
    h.superclass_and_receiver halign hlayer hinner
  obtain ⟨v', hv', hparent⟩ := h.store.exists_binding hv
  obtain ⟨u', hu', hreceiver⟩ := h.store.exists_binding hu
  rw [hlabel] at hv'
  rw [hlabel'] at hu'
  cases hparent with
  | ofClass hparent =>
    cases hreceiver with
    | ofInstance =>
      rw [Eval.superMethod_of_bound (h.left _ _ _ hentry)
          (by rw [Store.getAt?, hg]; exact hv) (by rw [Store.getAt?, hf]; exact hu),
        Eval.superMethod_of_bound (h.right _ _ _ hentry)
          (by rw [Store.getAt?, h.current, h.store.ancestor?_eq, hg]; exact hv')
          (by rw [Store.getAt?, h.current, h.store.ancestor?_eq, hf]; exact hu'), hmethod.2]
      obtain ⟨hn, hn'⟩ | ⟨c, c', hn, hn', hc⟩ := (hparent.findMethod? method.lexeme).none_or_some
      · rw [hn, hn']
        exact h.fail hmethod
      · rw [hn, hn']
        exact h.bindValue hc r

/-- Setting variables of a frame one after another binds all of them. -/
lemma defineAll {f : FrameId} {ρ : Equiv.Perm String} {bs bs' : List (String × Value)}
    (h : Agree E w m m') (hf : f < m.store.frames.size) (hlabel : w f = .names ρ)
    (hbs : List.Forall₂ (fun b b' => b'.1 = ρ b.1 ∧ ValueLike E w m.store b.2 b'.2) bs bs') :
    OutcomeLike E w m (fun _ s₁ _ _ => ∀ n ∈ bs.map Prod.fst, (s₁.local? f n).isSome)
      (Eval.defineAll f bs m) (Eval.defineAll f bs' m') := by
  induction bs generalizing bs' m m' with
  | nil =>
    cases hbs
    exact .pure h (by simp)
  | cons b bs ih =>
    obtain ⟨n, v⟩ := b
    obtain _ | @⟨_, ⟨n', v'⟩, _, bs', ⟨hn, hv⟩, hrest⟩ := hbs
    have hgrow := grows_define w m.store f n v
    refine (h.define hf (by rw [hlabel]; exact hn) (hv.grow hgrow) ?_ ?_).bind ?_
    · intro heq
      simp [hlabel] at heq
    · intro heq
      simp [hlabel] at heq
    rintro w₁ m₁ m₁' _ _ hgrow₁ - h₁ ⟨rfl, hstore₁⟩
    refine (ih h₁ (Nat.lt_of_lt_of_le hf hgrow₁.size) (hrest.imp fun _ _ hb =>
      ⟨hb.1, hb.2.grow hgrow₁⟩)).mono ?_
    intro w₂ s₂ _ _ hgrow₂ hbound k hk
    rcases List.mem_cons.mp hk with rfl | hk
    · refine hgrow₂.bound f _ ?_
      rw [hstore₁, Store.local?_define _ _ _ _ _ _ hf]
      simp
    · exact hbound k hk

end Agree

/-- The scopes around the receiver's, with one for the superclass if there is one. -/
def Layers.inherited {α : Type} : Option α → Layers → Layers
  | none, Γ => Γ
  | some _, Γ => Layer.superclass :: Γ

namespace Agree

variable {E : Setting} {w : Labels} {m m' : Machine}

lemma methodFrame (h : Agree E w m m') {Γ : Layers} (halign : Aligned w m.store m.current Γ)
    {parent parent' : Option Class} (hparent : Option.Rel (ClassLike E w m.store) parent parent') :
    OutcomeLike E w m (fun w₁ s₁ f f' => f' = f ∧ Aligned w₁ s₁ f (Γ.inherited parent))
      (methodFrame parent m) (methodFrame parent' m') := by
  refine h.atCurrent ?_
  cases hparent with
  | none => exact .pure h ⟨rfl, halign⟩
  | @some c c' hc =>
    refine (h.newFrame m.current .superclass).bind ?_
    rintro w₁ m₁ m₁' f _ hgrow - h₁ ⟨rfl, hstore₁, rfl, rfl⟩
    have halign₁ := halign.newFrame .superclass
    rw [← hstore₁] at halign₁
    refine (h₁.define halign₁.1 ?_ (.ofClass ((hc.grow hgrow).grow (grows_define ..))) ?_ ?_).bind
      ?_
    · simp [Label.rename]
    · intro hlabel
      simp at hlabel
    · exact fun _ _ => ⟨c, rfl⟩
    rintro w₂ m₂ m₂' _ _ - - h₂ ⟨rfl, hstore₂⟩
    have halign₂ := halign₁.define superName (.ofClass c)
    rw [← hstore₂] at halign₂
    exact .pure h₂ ⟨rfl, halign₂⟩

lemma closeMethods {σ : Setting} (hfits : σ.Fits E) {Γ : Layers} {f : FrameId}
    {decls decls' : List FunctionDecl} {methods methods' : Std.TreeMap String Closure}
    (h : Agree E w m m') (halign : Aligned w m.store f Γ)
    (hdecls : FunctionsLike σ (Layer.receiver :: Γ) decls decls')
    (hmethods : ∀ n : String, Option.Rel (MethodLike E w m.store) methods[n]? methods'[n]?) :
    OutcomeLike E w m
      (fun w₁ s₁ ms ms' => ∀ n : String, Option.Rel (MethodLike E w₁ s₁) ms[n]? ms'[n]?)
      (closeMethods f methods decls m) (closeMethods f methods' decls' m') := by
  induction decls generalizing decls' methods methods' w m m' with
  | nil =>
    cases hdecls
    exact .pure h hmethods
  | cons decl decls ih =>
    cases hdecls with
    | @cons _ _ decl' _ decls' hdecl hdecls =>
      simp only [GermanLox.closeMethods, hdecl.name_eq]
      refine (h.close decl decl' f _).bind ?_
      rintro w₁ m₁ m₁' _ _ hgrow - h₁ ⟨rfl, hstore, k, rfl, rfl⟩
      refine ih h₁ (halign.grow hgrow) hdecls fun n => ?_
      simp only [Std.TreeMap.getElem?_insert]
      split
      · exact .some ⟨rfl, rfl, rfl, σ, Γ, hfits, halign.grow hgrow, hdecl⟩
      · exact (hmethods n).mono fun _ _ hm => hm.grow hgrow

/-- Setting a name that is declared where the running code is. -/
lemma defineHere (h : Agree E w m m') {Γ : Layers} (halign : Aligned w m.store m.current Γ)
    {n n' : String} (hn : Γ.DeclaresAs n n') {v v' : Value}
    (hv : ValueLike E w (m.store.define m.current n v) v v') :
    OutcomeLike E w m (fun w₁ s₁ _ _ => w₁ = w ∧ s₁ = m.store.define m.current n v)
      (Eval.define m.current n v m) (Eval.define m.current n' v' m') := by
  obtain ⟨ρ, hlabel, hρ⟩ := halign.declares h.store hn
  refine h.define (halign.lt h.store) (by rw [hlabel]; exact hρ) hv ?_ ?_
  · intro heq
    simp [hlabel] at heq
  · intro heq
    simp [hlabel] at heq

lemma lineageOf {w₁ : Labels} {s s₁ : Store} {parent parent' : Option Class}
    (hparent : Option.Rel (ClassLike E w s) parent parent') (hgrow : Grows w s w₁ s₁) :
    List.Forall₂ (DefinitionLike E w₁ s₁) (Class.lineageOf parent) (Class.lineageOf parent') := by
  cases hparent with
  | none => exact .nil
  | some hc => exact hc.grow hgrow

lemma declareClass (h : Agree E w m m') {σ : Setting} (hfits : σ.Fits E) {Γ : Layers}
    (halign : Aligned w m.store m.current Γ) {name name' : Token}
    (ht : name'.lexeme = name.lexeme) (hname : Γ.DeclaresAs name.lexeme name'.lexeme)
    {parent parent' : Option Class} (hparent : Option.Rel (ClassLike E w m.store) parent parent')
    {methods methods' : List FunctionDecl} (hmethods : FunctionsLike σ
      (Layer.receiver :: Layers.inherited parent (Γ.enter name.lexeme true)) methods methods') :
    OutcomeLike E w m (fun w₁ s₁ _ _ => Aligned w₁ s₁ m.current (Γ.enter name.lexeme true))
      (declareClass name parent methods m) (declareClass name' parent' methods' m') := by
  refine h.atCurrent ((h.defineHere halign hname .nil).bind ?_)
  rintro w₁ m₁ m₁' _ _ hgrow₁ hcurrent₁ h₁ ⟨rfl, hstore₁⟩
  have halign₁ := halign.define name.lexeme .nil
  rw [← hstore₁, ← hcurrent₁] at halign₁
  have hbound₁ : (m₁.store.local? m.current name.lexeme).isSome := by
    rw [hstore₁, Store.local?_define _ _ _ _ _ _ (halign.lt h.store)]
    simp
  refine (h₁.methodFrame halign₁ (hparent.mono fun _ _ hc => hc.grow hgrow₁)).bind ?_
  rintro w₂ m₂ m₂' f _ hgrow₂ hcurrent₂ h₂ ⟨rfl, halign₂⟩
  refine (closeMethods hfits h₂ halign₂ hmethods fun n => ?_).bind ?_
  · simp
  rintro w₃ m₃ m₃' ms ms' hgrow₃ hcurrent₃ h₃ hms
  refine h₃.freshIdentity.bind ?_
  rintro w₄ m₄ m₄' _ k hgrow₄ hcurrent₄ h₄ ⟨rfl, -, rfl⟩
  have hgrow : Grows w₁ m₁.store w₄ m₄.store := (hgrow₂.trans hgrow₃).trans hgrow₄
  have hcurrent : m₄.current = m.current :=
    hcurrent₄.trans (hcurrent₃.trans (hcurrent₂.trans hcurrent₁))
  have halign₄ := (halign.grow hgrow₁).grow hgrow
  have hbound₄ := hgrow.bound _ _ hbound₁
  rw [← hcurrent] at halign₄ hbound₄ ⊢
  obtain ⟨v, hv⟩ := Option.isSome_iff_exists.mp hbound₄
  obtain ⟨v', hv', -⟩ := h₄.store.exists_binding hv
  obtain ⟨ρ, hlabel, hρ⟩ := halign₄.declares h₄.store hname
  rw [hlabel, Label.rename, ← hρ] at hv'
  rw [Eval.assignFrom_of_bound hbound₄, Eval.assignFrom_of_bound (by rw [hv']; rfl)]
  have hclass : ClassLike E w₄ m₄.store ⟨⟨k, name.lexeme, ms⟩, Class.lineageOf parent⟩
      ⟨⟨k, name'.lexeme, ms'⟩, Class.lineageOf parent'⟩ := by
    refine .cons ⟨rfl, ht, fun n => (hms n).mono fun _ _ hm => hm.grow hgrow₄⟩ ?_
    exact lineageOf hparent (hgrow₁.trans hgrow)
  refine (h₄.defineHere halign₄ hname (.ofClass (hclass.grow (grows_define ..)))).mono ?_
  rintro w₅ s₅ _ _ - ⟨rfl, rfl⟩
  exact halign₄.define _ _

end Agree

/-- Completions alike of statements that may return, with what a normal end leaves. -/
inductive CompletionLike (E : Setting) (inside : Bool) (P : Labels → Store → Prop) (w : Labels)
    (s : Store) : Completion → Completion → Prop
  | normal (h : P w s) : CompletionLike E inside P w s .normal .normal
  | returned {v v'} (hinside : inside = true) (h : ValueLike E w s v v') :
    CompletionLike E inside P w s (.returned v) (.returned v')

lemma callResult_of_initializer {c : Closure} (h : c.isInitializer = true) (x : Completion)
    (m : Machine) :
    callResult c x m = .ok ((m.store.local? c.frame thisName).getD .nil) m := by
  simp [callResult, h, Eval.inspect, Store.getAt?, Store.ancestor?, bind, EStateM.bind, pure,
    EStateM.pure]

lemma callResult_of_function {c : Closure} (h : c.isInitializer = false) (x : Completion)
    (m : Machine) :
    callResult c x m = .ok (match x with | .returned v => v | .normal => .nil) m := by
  cases x <;> simp [callResult, h, pure, EStateM.pure]

lemma Agree.callResult {E : Setting} {w : Labels} {m m' : Machine} (h : Agree E w m m')
    {c c' : Closure} (hc : FunctionValueLike E w m.store c c') {x x' : Completion} {inside : Bool}
    {P : Labels → Store → Prop} (hx : CompletionLike E inside P w m.store x x') :
    OutcomeLike E w m (ValueLike E) (callResult c x m) (callResult c' x' m') := by
  cases hinit : c.isInitializer with
  | true =>
    obtain ⟨-, hlabel⟩ := hc.receiver hinit
    rw [callResult_of_initializer hinit, callResult_of_initializer (hc.isInitializer.trans hinit),
      hc.frame]
    refine .pure h ?_
    have hrel := h.store.binding c.frame thisName
    rw [hlabel, Label.rename, Equiv.refl_apply] at hrel
    obtain ⟨hn, hn'⟩ | ⟨v, v', hn, hn', hv⟩ := hrel.none_or_some
    · rw [hn, hn']
      exact .nil
    · rw [hn, hn']
      exact hv
  | false =>
    rw [callResult_of_function hinit, callResult_of_function (hc.isInitializer.trans hinit)]
    cases hx with
    | normal => exact .pure h .nil
    | returned _ hv => exact .pure h hv

end GermanLox
