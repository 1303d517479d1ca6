import GermanLox.Proofs.Run.Belonging
import GermanLox.Proofs.Run.Discipline

/-!
# What frames are for

Every frame of a store has a role that it keeps. Most hold the variables of a scope; a frame of a
receiver holds one instance for one method, and a frame of a superclass holds what the methods of
one class call `super`. Since the role says what is in the frame, nothing else ever is.

A store is founded if all that it holds goes back to the session: functions are code of the session
whose scopes are nested as its frames are, initializers are closed in frames of receivers, and
classes were made by declarations.
-/

namespace GermanLox

/-- A class as its declaration has made it, with the frame that its methods are closed in. -/
structure Making where
  decl : ClassDecl
  parent : Option Class
  own : ClassDefinition
  frame : FrameId

def Making.made (k : Making) : Class :=
  ⟨k.own, Class.lineageOf k.parent⟩

inductive Role where
  /-- Variables and parameters. -/
  | scope
  /-- The receiver of a method of a class. -/
  | receiver (k : Making) (method : Closure) (i : InstanceId)
  /-- The superclass of a class. -/
  | superclass (k : Making)

/-- The role of every frame. -/
abbrev Roles := FrameId → Role

/-- What the methods of a class are closed in. -/
def Making.role (k : Making) : Role :=
  if k.parent.isSome then .superclass k else .scope

/-- The frames from a frame outward are nested like scopes, and the home of code in them is the
method that the nearest receiver is for. -/
inductive Nested (w : Roles) (s : Store) : FrameId → Layers → Option Home → Prop
  | globals : Nested w s Store.globals [] none
  | scope {f g layer ρ Γ home} (hlt : f < s.frames.size) (hrole : w f = .scope)
    (hlabel : layer.label = .names ρ) (hlink : s.enclosing? f = some g)
    (hg : Nested w s g Γ home) : Nested w s f (layer :: Γ) home
  | receiver {f g k method i Γ home} (hlt : f < s.frames.size)
    (hrole : w f = .receiver k method i) (hlink : s.enclosing? f = some g)
    (hg : Nested w s g Γ home) :
    Nested w s f (Layer.receiver :: Γ) (some ⟨k.decl, method.decl⟩)
  | superclass {f g k Γ home} (hlt : f < s.frames.size) (hrole : w f = .superclass k)
    (hlink : s.enclosing? f = some g) (hg : Nested w s g Γ home) :
    Nested w s f (Layer.superclass :: Γ) home

/-- A later store: nothing is lost, and the frames keep their roles. -/
structure Follows (w : Roles) (s : Store) (w₁ : Roles) (s₁ : Store) : Prop where
  retains : s.Retains s₁
  roles : ∀ f < s.frames.size, w₁ f = w f

namespace Follows

variable {w w₁ w₂ : Roles} {s s₁ s₂ : Store}

lemma refl (w : Roles) (s : Store) : Follows w s w s :=
  ⟨.refl s, fun _ _ => rfl⟩

lemma trans (h : Follows w s w₁ s₁) (h₁ : Follows w₁ s₁ w₂ s₂) : Follows w s w₂ s₂ where
  retains := h.retains.trans h₁.retains
  roles := fun f hf =>
    (h₁.roles f (Nat.lt_of_lt_of_le hf h.retains.frames)).trans (h.roles f hf)

lemma lt (h : Follows w s w₁ s₁) {f : FrameId} (hf : f < s.frames.size) : f < s₁.frames.size :=
  Nat.lt_of_lt_of_le hf h.retains.frames

lemma instance_lt (h : Follows w s w₁ s₁) {i : InstanceId} (hi : i < s.instances.size) :
    i < s₁.instances.size := by
  obtain ⟨_, ho, -⟩ := h.retains.instances i _ (Array.getElem?_eq_getElem hi)
  exact (Array.getElem?_eq_some_iff.mp ho).1

/-- Only a new frame has a new role. -/
lemma update (h : s.Retains s₁) (w : Roles) (role : Role) :
    Follows w s (Function.update w s.frames.size role) s₁ :=
  ⟨h, fun _ hf => Function.update_of_ne (Nat.ne_of_lt hf) role w⟩

end Follows

namespace Nested

variable {w w₁ : Roles} {s s₁ : Store} {f : FrameId} {Γ : Layers} {home : Option Home}

lemma follow (h : Nested w s f Γ home) (hfollow : Follows w s w₁ s₁) :
    Nested w₁ s₁ f Γ home := by
  induction h with
  | globals => exact .globals
  | scope hlt hrole hlabel hlink _ ih =>
    exact .scope (hfollow.lt hlt) ((hfollow.roles _ hlt).trans hrole) hlabel
      ((hfollow.retains.link _ hlt).trans hlink) ih
  | receiver hlt hrole hlink _ ih =>
    exact .receiver (hfollow.lt hlt) ((hfollow.roles _ hlt).trans hrole)
      ((hfollow.retains.link _ hlt).trans hlink) ih
  | superclass hlt hrole hlink _ ih =>
    exact .superclass (hfollow.lt hlt) ((hfollow.roles _ hlt).trans hrole)
      ((hfollow.retains.link _ hlt).trans hlink) ih

lemma lt (h : Nested w s f Γ home) (hglobals : Store.globals < s.frames.size) :
    f < s.frames.size := by
  cases h with
  | globals => exact hglobals
  | scope hlt => exact hlt
  | receiver hlt => exact hlt
  | superclass hlt => exact hlt

/-- Names can only be declared among variables. -/
lemma role_of_declares (h : Nested w s f Γ home) (hglobals : w Store.globals = .scope)
    {n n' : String} (hn : Γ.DeclaresAs n n') : w f = .scope := by
  cases h with
  | globals => exact hglobals
  | scope _ hrole => exact hrole
  | receiver =>
    obtain ⟨ρ, hρ, -⟩ := hn
    cases hρ
  | superclass =>
    obtain ⟨ρ, hρ, -⟩ := hn
    cases hρ

/-- Frames do not change their nesting when a name is declared. -/
lemma enter (h : Nested w s f Γ home) {n n' : String} (hn : Γ.DeclaresAs n n') (ready : Bool) :
    Nested w s f (Γ.enter n ready) home := by
  cases h with
  | globals => exact .globals
  | scope hlt hrole hlabel hlink hg => exact .scope hlt hrole hlabel hlink hg
  | receiver =>
    obtain ⟨ρ, hρ, -⟩ := hn
    cases hρ
  | superclass =>
    obtain ⟨ρ, hρ, -⟩ := hn
    cases hρ

/-- A scope with a variable of the program is one of variables. -/
lemma exists_scope (h : Nested w s f Γ home) {d : Nat} {layer : Layer} {n : String}
    (hlayer : Γ[d]? = some layer) (hn : (layer.names n).isSome) (hthis : n ≠ thisName)
    (hsuper : n ≠ superName) :
    ∃ g, s.ancestor? f d = some g ∧ g < s.frames.size ∧ w g = .scope := by
  induction h generalizing d with
  | globals => simp at hlayer
  | @scope f g _ _ _ _ hlt hrole _ hlink _ ih =>
    cases d with
    | zero => exact ⟨f, rfl, hlt, hrole⟩
    | succ d =>
      obtain ⟨a, ha, hfound⟩ := ih (by simpa using hlayer)
      exact ⟨a, by rw [Store.ancestor?, hlink]; exact ha, hfound⟩
  | receiver _ _ hlink _ ih =>
    cases d with
    | zero =>
      obtain rfl : Layer.receiver = layer := by simpa using hlayer
      simp [Layer.receiver, Layer.enter, Layer.empty, hthis] at hn
    | succ d =>
      obtain ⟨a, ha, hfound⟩ := ih (by simpa using hlayer)
      exact ⟨a, by rw [Store.ancestor?, hlink]; exact ha, hfound⟩
  | superclass _ _ hlink _ ih =>
    cases d with
    | zero =>
      obtain rfl : Layer.superclass = layer := by simpa using hlayer
      simp [Layer.superclass, Layer.enter, Layer.empty, hsuper] at hn
    | succ d =>
      obtain ⟨a, ha, hfound⟩ := ih (by simpa using hlayer)
      exact ⟨a, by rw [Store.ancestor?, hlink]; exact ha, hfound⟩

end Nested

/-- A frame with one variable and no other. -/
def Store.HoldsOnly (s : Store) (f : FrameId) (n : String) (v : Value) : Prop :=
  ∀ n', s.local? f n' = if n' = n then some v else none

lemma Store.HoldsOnly.self {s : Store} {f : FrameId} {n : String} {v : Value}
    (h : s.HoldsOnly f n v) : s.local? f n = some v := by
  rw [h n, if_pos rfl]

/-- A class that goes back to its declaration. -/
structure Making.Founded (C : Chronicle) (w : Roles) (s : Store) (k : Making) : Prop where
  made : C.made k.decl k.parent k.made
  lt : k.frame < s.frames.size
  role : w k.frame = k.role
  methods : ∃ Γ home, Nested w s k.frame Γ home ∧
    ∀ (n : String) (method : Closure), k.own.methods[n]? = some method →
      method.frame = k.frame ∧ method.isInitializer = decide (n = initializerName) ∧
        method.decl.Belongs C (Layer.receiver :: Γ) (some ⟨k.decl, method.decl⟩)

/-- A class all of whose lineage does so. -/
inductive Class.Founded (C : Chronicle) (w : Roles) (s : Store) : Class → Prop
  | mk {k : Making} (hk : k.Founded C w s)
    (hparent : ∀ p, k.parent = some p → Class.Founded C w s p) : Class.Founded C w s k.made

/-- A function of the session. An initializer has a receiver. -/
structure Closure.Founded (C : Chronicle) (w : Roles) (s : Store) (c : Closure) : Prop where
  code : ∃ Γ home, Nested w s c.frame Γ home ∧ c.decl.Belongs C Γ home
  receiver : c.isInitializer →
    c.frame < s.frames.size ∧ ∃ k method i, w c.frame = .receiver k method i

def Value.Founded (C : Chronicle) (w : Roles) (s : Store) : Value → Prop
  | .closure c => c.Founded C w s
  | .ofClass c => c.Founded C w s
  | .ofInstance i => i < s.instances.size
  | _ => True

structure Instance.Founded (C : Chronicle) (w : Roles) (s : Store) (o : Instance) : Prop where
  ofClass : o.ofClass.Founded C w s
  fields : ∀ (n : String) (v : Value), o.fields[n]? = some v → v.Founded C w s

/-- A frame has in it what its role asks for. -/
def Role.Fulfilled (C : Chronicle) (w : Roles) (s : Store) (f : FrameId) : Role → Prop
  | .scope => ∀ n, (s.local? f n).isSome → n ≠ thisName ∧ n ≠ superName
  | .receiver k method i => k.Founded C w s ∧ (∃ n : String, k.own.methods[n]? = some method) ∧
      s.enclosing? f = some method.frame ∧ i < s.instances.size ∧
      s.HoldsOnly f thisName (.ofInstance i)
  | .superclass k => k.Founded C w s ∧ ∃ p, k.parent = some p ∧ s.HoldsOnly f superName (.ofClass p)

structure Store.Founded (C : Chronicle) (w : Roles) (s : Store) : Prop where
  globals : Store.globals < s.frames.size
  outermost : s.enclosing? Store.globals = none
  role : w Store.globals = .scope
  values : ∀ f n v, s.local? f n = some v → v.Founded C w s
  instances : ∀ (i : InstanceId) (o : Instance), s.instances[i]? = some o → o.Founded C w s
  roles : ∀ f < s.frames.size, (w f).Fulfilled C w s f

section Later

variable {C C₁ : Chronicle} {w w₁ : Roles} {s s₁ : Store}

lemma Making.Founded.follow {k : Making} (h : k.Founded C w s) (hfollow : Follows w s w₁ s₁) :
    k.Founded C w₁ s₁ := by
  obtain ⟨Γ, home, hnested, hmethods⟩ := h.methods
  exact ⟨h.made, hfollow.lt h.lt, (hfollow.roles _ h.lt).trans h.role, Γ, home,
    hnested.follow hfollow, hmethods⟩

lemma Class.Founded.follow {c : Class} (h : c.Founded C w s) (hfollow : Follows w s w₁ s₁) :
    c.Founded C w₁ s₁ := by
  induction h with
  | mk hk _ ih => exact .mk (hk.follow hfollow) ih

lemma Closure.Founded.follow {c : Closure} (h : c.Founded C w s) (hfollow : Follows w s w₁ s₁) :
    c.Founded C w₁ s₁ := by
  obtain ⟨Γ, home, hnested, hdecl⟩ := h.code
  refine ⟨⟨Γ, home, hnested.follow hfollow, hdecl⟩, fun hinit => ?_⟩
  obtain ⟨hlt, k, method, i, hrole⟩ := h.receiver hinit
  exact ⟨hfollow.lt hlt, k, method, i, (hfollow.roles _ hlt).trans hrole⟩

/-- What a value goes back to stays. -/
lemma Value.Founded.follow {v : Value} (h : v.Founded C w s) (hfollow : Follows w s w₁ s₁) :
    v.Founded C w₁ s₁ := by
  cases v with
  | closure c => exact Closure.Founded.follow h hfollow
  | ofClass c => exact Class.Founded.follow h hfollow
  | ofInstance i => exact hfollow.instance_lt h
  | _ => trivial

lemma Instance.Founded.follow {o : Instance} (h : o.Founded C w s)
    (hfollow : Follows w s w₁ s₁) : o.Founded C w₁ s₁ :=
  ⟨h.ofClass.follow hfollow, fun n v hv => (h.fields n v hv).follow hfollow⟩

/-- A frame whose variables are as before still does what it is for. -/
lemma Role.Fulfilled.follow {role : Role} {f : FrameId} (h : role.Fulfilled C w s f)
    (hfollow : Follows w s w₁ s₁) (hlt : f < s.frames.size)
    (hsame : ∀ n, s₁.local? f n = s.local? f n) : role.Fulfilled C w₁ s₁ f := by
  cases role with
  | scope => exact fun n hn => h n (by rwa [hsame] at hn)
  | receiver k method i =>
    obtain ⟨hk, hmethod, hlink, hi, honly⟩ := h
    exact ⟨hk.follow hfollow, hmethod, (hfollow.retains.link f hlt).trans hlink,
      hfollow.instance_lt hi, fun n => (hsame n).trans (honly n)⟩
  | superclass k =>
    obtain ⟨hk, p, hp, honly⟩ := h
    exact ⟨hk.follow hfollow, p, hp, fun n => (hsame n).trans (honly n)⟩

lemma Making.Founded.widen {k : Making} (h : k.Founded C w s) (hC : C.Fits C₁) :
    k.Founded C₁ w s := by
  obtain ⟨Γ, home, hnested, hmethods⟩ := h.methods
  refine ⟨hC.made _ _ _ h.made, h.lt, h.role, Γ, home, hnested, fun n method hmethod => ?_⟩
  obtain ⟨hframe, hinit, hdecl⟩ := hmethods n method hmethod
  exact ⟨hframe, hinit, hdecl.widen hC⟩

lemma Class.Founded.widen {c : Class} (h : c.Founded C w s) (hC : C.Fits C₁) :
    c.Founded C₁ w s := by
  induction h with
  | mk hk _ ih => exact .mk (hk.widen hC) ih

lemma Value.Founded.widen {v : Value} (h : v.Founded C w s) (hC : C.Fits C₁) :
    v.Founded C₁ w s := by
  cases v with
  | closure c =>
    obtain ⟨⟨Γ, home, hnested, hdecl⟩, hreceiver⟩ := h
    exact ⟨⟨Γ, home, hnested, hdecl.widen hC⟩, hreceiver⟩
  | ofClass c => exact Class.Founded.widen h hC
  | ofInstance i => exact h
  | _ => trivial

/-- What was founded before still is when more is known. -/
lemma Store.Founded.widen (h : s.Founded C w) (hC : C.Fits C₁) : s.Founded C₁ w where
  globals := h.globals
  outermost := h.outermost
  role := h.role
  values := fun f n v hv => (h.values f n v hv).widen hC
  instances := fun i o ho =>
    ⟨(h.instances i o ho).ofClass.widen hC,
      fun n v hv => ((h.instances i o ho).fields n v hv).widen hC⟩
  roles := by
    intro f hf
    have hrole := h.roles f hf
    revert hrole
    cases w f with
    | scope => exact fun hrole => hrole
    | receiver k method i =>
      rintro ⟨hk, hrest⟩
      exact ⟨hk.widen hC, hrest⟩
    | superclass k =>
      rintro ⟨hk, hrest⟩
      exact ⟨hk.widen hC, hrest⟩

end Later

/-- The instance that a frame is for. -/
def Role.receiver? : Role → Option InstanceId
  | .receiver _ _ i => some i
  | _ => none

/-- In a frame for an instance `dies` is the instance; elsewhere it is not bound. -/
lemma Store.Founded.local?_this {C : Chronicle} {w : Roles} {s : Store} (h : s.Founded C w)
    {f : FrameId} (hlt : f < s.frames.size) :
    s.local? f thisName = (w f).receiver?.map Value.ofInstance := by
  have hrole := h.roles f hlt
  revert hrole
  cases w f with
  | scope =>
    intro hscope
    cases hv : s.local? f thisName with
    | none => rfl
    | some v => exact absurd rfl (hscope thisName (by rw [hv]; rfl)).1
  | receiver k method i =>
    rintro ⟨-, -, -, -, honly⟩
    exact honly.self
  | superclass k =>
    rintro ⟨-, p, -, honly⟩
    rw [honly thisName, if_neg (by decide)]
    rfl

/-- What `dies` is in a frame, it stays. -/
structure Store.KeepsReceivers (s s₁ : Store) : Prop where
  frames : s.frames.size ≤ s₁.frames.size
  this : ∀ f < s.frames.size, s₁.local? f thisName = s.local? f thisName

lemma Store.KeepsReceivers.refl (s : Store) : s.KeepsReceivers s :=
  ⟨Nat.le_refl _, fun _ _ => rfl⟩

lemma Store.KeepsReceivers.trans {s s₁ s₂ : Store} (h : s.KeepsReceivers s₁)
    (h₁ : s₁.KeepsReceivers s₂) : s.KeepsReceivers s₂ where
  frames := Nat.le_trans h.frames h₁.frames
  this := fun f hf => (h₁.this f (Nat.lt_of_lt_of_le hf h.frames)).trans (h.this f hf)

lemma Follows.keepsReceivers {C : Chronicle} {w w₁ : Roles} {s s₁ : Store}
    (h : Follows w s w₁ s₁) (hs : s.Founded C w) (hs₁ : s₁.Founded C w₁) :
    s.KeepsReceivers s₁ where
  frames := h.retains.frames
  this := fun f hf => by rw [hs₁.local?_this (h.lt hf), hs.local?_this hf, h.roles f hf]

/-- A method that a class has goes back to the declaration that it is from. -/
lemma Class.Founded.findMethod? {C : Chronicle} {w : Roles} {s : Store} {c : Class}
    (h : c.Founded C w s) {n : String} {method : Closure}
    (hmethod : c.findMethod? n = some method) :
    ∃ k : Making, k.Founded C w s ∧ k.own.methods[n]? = some method := by
  induction h with
  | @mk k hk _ ih =>
    rw [Class.findMethod?, Making.made, Class.lineage, List.findSome?_cons] at hmethod
    cases hown : k.own.methods[n]? with
    | some own =>
      rw [hown] at hmethod
      exact ⟨k, hk, hown.trans hmethod⟩
    | none =>
      rw [hown] at hmethod
      cases hparent : k.parent with
      | none => simp [hparent, Class.lineageOf] at hmethod
      | some p =>
        refine ih p hparent ?_
        simpa [hparent, Class.lineageOf, Class.findMethod?] using hmethod

namespace Store

variable {C : Chronicle} {w : Roles} {s : Store}

/-- A new frame with one variable. -/
def frameWith (s : Store) (outer : FrameId) (n : String) (v : Value) : Store :=
  (s.newFrame (some outer)).2.define s.frames.size n v

section FrameWith

variable (s : Store) (outer : FrameId) (n : String) (v : Value)

lemma retains_frameWith : s.Retains (s.frameWith outer n v) :=
  (Retains.newFrame s (some outer)).trans (Retains.define _ _ _ _)

lemma size_frameWith : (s.frameWith outer n v).frames.size = s.frames.size + 1 := by
  simp [frameWith, define, newFrame]

lemma enclosing?_frameWith :
    (s.frameWith outer n v).enclosing? s.frames.size = some outer := by
  rw [frameWith, enclosing?_define, enclosing?_newFrame, if_pos rfl]

lemma local?_frameWith (f : FrameId) (n' : String) : (s.frameWith outer n v).local? f n' =
    if s.frames.size = f ∧ n = n' then some v else s.local? f n' := by
  rw [frameWith, local?_define _ _ _ _ _ _ (by simp [newFrame]), local?_newFrame]

lemma holdsOnly_frameWith : (s.frameWith outer n v).HoldsOnly s.frames.size n v := by
  intro n'
  rw [local?_frameWith, local?_of_size_le (Nat.le_refl _)]
  by_cases hn : n = n'
  · rw [if_pos ⟨rfl, hn⟩, if_pos hn.symm]
  · rw [if_neg fun h => hn h.2, if_neg fun h => hn h.symm]

end FrameWith

namespace Founded

/-- A variable is set where variables are. -/
lemma define (h : s.Founded C w) {f : FrameId} (hlt : f < s.frames.size) (hrole : w f = .scope)
    {n : String} (hthis : n ≠ thisName) (hsuper : n ≠ superName) {v : Value}
    (hv : v.Founded C w s) : (s.define f n v).Founded C w := by
  have hfollow : Follows w s w (s.define f n v) := ⟨.define s f n v, fun _ _ => rfl⟩
  refine ⟨hfollow.lt h.globals, ?_, h.role, ?_, ?_, ?_⟩
  · rw [enclosing?_define, h.outermost]
  · intro g n' u hu
    rcases local?_define_eq_some hlt hu with ⟨-, -, rfl⟩ | hu
    · exact hv.follow hfollow
    · exact (h.values g n' u hu).follow hfollow
  · exact fun i o ho => (h.instances i o ho).follow hfollow
  · intro g hg
    have hg : g < s.frames.size := by simpa [Store.define] using hg
    by_cases hfg : f = g
    · subst hfg
      have hscope := h.roles f hlt
      rw [hrole] at hscope ⊢
      intro n' hn'
      rw [local?_define s f n v f n' hlt] at hn'
      by_cases hnn : n = n'
      · subst hnn
        exact ⟨hthis, hsuper⟩
      · exact hscope n' (by rwa [if_neg fun heq => hnn heq.2] at hn')
    · refine (h.roles g hg).follow hfollow hg fun n' => ?_
      rw [local?_define s f n v g n' hlt, if_neg fun heq => hfg heq.1]

/-- A frame is added, with a role that it fulfils. -/
lemma addFrame (h : s.Founded C w) {s₁ : Store} {role : Role} (hretains : s.Retains s₁)
    (hsize : s₁.frames.size = s.frames.size + 1)
    (hlocal : ∀ f n, f ≠ s.frames.size → s₁.local? f n = s.local? f n)
    (hinstances : s₁.instances = s.instances)
    (hvalues : ∀ n v, s₁.local? s.frames.size n = some v →
      v.Founded C (Function.update w s.frames.size role) s₁)
    (hrole : role.Fulfilled C (Function.update w s.frames.size role) s₁ s.frames.size) :
    s₁.Founded C (Function.update w s.frames.size role) := by
  have hfollow := Follows.update hretains w role
  refine ⟨hfollow.lt h.globals, ?_, ?_, ?_, ?_, ?_⟩
  · rw [hretains.link _ h.globals, h.outermost]
  · rw [hfollow.roles _ h.globals, h.role]
  · intro f n v hv
    by_cases hf : f = s.frames.size
    · subst hf
      exact hvalues n v hv
    · rw [hlocal f n hf] at hv
      exact (h.values f n v hv).follow hfollow
  · intro i o ho
    rw [hinstances] at ho
    exact (h.instances i o ho).follow hfollow
  · intro f hf
    by_cases hnew : f = s.frames.size
    · subst hnew
      rwa [Function.update_self]
    · have hlt : f < s.frames.size := by omega
      rw [hfollow.roles f hlt]
      exact (h.roles f hlt).follow hfollow hlt fun n => hlocal f n hnew

lemma newFrame (h : s.Founded C w) (outer : FrameId) :
    (s.newFrame (some outer)).2.Founded C (Function.update w s.frames.size .scope) := by
  have hnone : ∀ n, (s.newFrame (some outer)).2.local? s.frames.size n = none := fun n => by
    rw [local?_newFrame, local?_of_size_le (Nat.le_refl _)]
  refine h.addFrame (.newFrame s (some outer)) (by simp [Store.newFrame])
    (fun f n _ => local?_newFrame s (some outer) f n) rfl ?_ ?_
  · intro n v hv
    rw [hnone] at hv
    cases hv
  · intro n hn
    rw [hnone] at hn
    cases hn

/-- A frame with one variable is added. -/
lemma frameWith (h : s.Founded C w) (outer : FrameId) {n : String} {v : Value} {role : Role}
    (hv : v.Founded C (Function.update w s.frames.size role) (s.frameWith outer n v))
    (hrole : role.Fulfilled C (Function.update w s.frames.size role) (s.frameWith outer n v)
      s.frames.size) :
    (s.frameWith outer n v).Founded C (Function.update w s.frames.size role) := by
  refine h.addFrame (retains_frameWith s outer n v) (size_frameWith s outer n v) ?_ rfl ?_ hrole
  · intro f n' hf
    rw [local?_frameWith, if_neg fun heq => hf heq.1.symm]
  · intro n' u hu
    rw [holdsOnly_frameWith s outer n v n'] at hu
    split at hu
    · cases hu
      exact hv
    · cases hu

/-- A receiver for a method of a class. -/
lemma receiver (h : s.Founded C w) {k : Making} (hk : k.Founded C w s) {n : String}
    {method : Closure} (hmethod : k.own.methods[n]? = some method) {i : InstanceId}
    (hi : i < s.instances.size) :
    (s.frameWith method.frame thisName (.ofInstance i)).Founded C
      (Function.update w s.frames.size (.receiver k method i)) := by
  have hfollow := Follows.update (retains_frameWith s method.frame thisName (.ofInstance i)) w
    (.receiver k method i)
  refine h.frameWith method.frame (hfollow.instance_lt hi) ?_
  exact ⟨hk.follow hfollow, ⟨n, hmethod⟩, enclosing?_frameWith s _ _ _, hfollow.instance_lt hi,
    holdsOnly_frameWith s _ _ _⟩

lemma withInstances (h : s.Founded C w) {instances : Array Instance}
    (hretains : s.Retains { s with instances })
    (hi : ∀ (i : InstanceId) (o : Instance), instances[i]? = some o →
      o.Founded C w { s with instances }) :
    Store.Founded C w { s with instances } := by
  have hfollow : Follows w s w { s with instances } := ⟨hretains, fun _ _ => rfl⟩
  exact ⟨h.globals, h.outermost, h.role, fun f n v hv => (h.values f n v hv).follow hfollow, hi,
    fun f hf => (h.roles f hf).follow hfollow hf fun _ => rfl⟩

lemma newInstance (h : s.Founded C w) {c : Class} (hc : c.Founded C w s) :
    (s.newInstance c).2.Founded C w := by
  have hfollow : Follows w s w (s.newInstance c).2 := ⟨.newInstance s c, fun _ _ => rfl⟩
  refine h.withInstances hfollow.retains fun i o ho => ?_
  rw [Array.getElem?_push] at ho
  split at ho
  · cases ho
    exact ⟨hc.follow hfollow, fun n v hv => by simp at hv⟩
  · exact (h.instances i o ho).follow hfollow

lemma setField (h : s.Founded C w) (i : InstanceId) (n : String) {v : Value}
    (hv : v.Founded C w s) : (s.setField i n v).Founded C w := by
  have hfollow : Follows w s w (s.setField i n v) := ⟨.setField s i n v, fun _ _ => rfl⟩
  refine h.withInstances hfollow.retains fun j o ho => ?_
  rw [Array.getElem?_modify] at ho
  split at ho
  · obtain ⟨o', ho', rfl⟩ := Option.map_eq_some_iff.mp ho
    have hold := (h.instances j o' ho').follow hfollow
    refine ⟨hold.ofClass, fun n' u hu => ?_⟩
    rw [Std.TreeMap.getElem?_insert] at hu
    split at hu
    · cases hu
      exact hv.follow hfollow
    · exact hold.fields n' u hu
  · exact (h.instances j o ho).follow hfollow

end Founded

end Store

end GermanLox
