import GermanLox.Proofs.Run.Origin
import GermanLox.Proofs.Run.Roles

/-!
# Actions on founded machines

Each single action of the machine, and each way to put actions in sequence, leaves a founded machine
founded, however it ends: frames keep their roles, and a result goes back to the session as well.
-/

namespace GermanLox

structure Machine.Founded (C : Chronicle) (w : Roles) (m : Machine) : Prop where
  store : m.store.Founded C w
  table : ∀ i i' d, C.setting.entry i i' d → m.distances[i]? = d

/-- What is left of a machine is founded, and has lost nothing. -/
structure Leaves (C : Chronicle) (w : Roles) (m : Machine) (w₁ : Roles) (m₁ : Machine) :
    Prop where
  founded : m₁.Founded C w₁
  roles : ∀ f < m.store.frames.size, w₁ f = w f
  retains : m.Retains m₁

/-- However an action ends, it leaves a founded machine, and its result is as wanted. -/
def Eval.Ends {α : Type} (C : Chronicle) (w : Roles) (Q : Roles → Store → α → Prop) (x : Eval α)
    (m : Machine) : Prop :=
  match x m with
  | .ok a m₁ => ∃ w₁, Leaves C w m w₁ m₁ ∧ Q w₁ m₁.store a
  | .error _ m₁ => ∃ w₁, Leaves C w m w₁ m₁

/-- Functions that can be called. -/
def Callable.Founded (C : Chronicle) (w : Roles) (s : Store) : Callable → Prop
  | .closure c => c.Founded C w s
  | .builtin _ => True
  | .ofClass c => c.Founded C w s

def Completion.Founded (C : Chronicle) (w : Roles) (s : Store) : Completion → Prop
  | .normal => True
  | .returned v => v.Founded C w s

lemma Callable.Founded.follow {C : Chronicle} {w w₁ : Roles} {s s₁ : Store} {f : Callable}
    (h : f.Founded C w s) (hfollow : Follows w s w₁ s₁) : f.Founded C w₁ s₁ := by
  cases f with
  | closure c => exact Closure.Founded.follow h hfollow
  | builtin b => trivial
  | ofClass c => exact Class.Founded.follow h hfollow

namespace Leaves

variable {C : Chronicle} {w w₁ w₂ : Roles} {m m₁ m₂ : Machine}

lemma follows (h : Leaves C w m w₁ m₁) : Follows w m.store w₁ m₁.store :=
  ⟨h.retains.store, h.roles⟩

lemma refl (h : m.Founded C w) : Leaves C w m w m :=
  ⟨h, fun _ _ => rfl, .refl m⟩

lemma trans (h : Leaves C w m w₁ m₁) (h₁ : Leaves C w₁ m₁ w₂ m₂) : Leaves C w m w₂ m₂ :=
  ⟨h₁.founded, (h.follows.trans h₁.follows).roles, h.retains.trans h₁.retains⟩

lemma nested (h : Leaves C w m w₁ m₁) {Γ : Layers} {home : Option Home}
    (hnested : Nested w m.store m.current Γ home) : Nested w₁ m₁.store m₁.current Γ home := by
  rw [h.retains.current]
  exact hnested.follow h.follows

/-- Back in the frame from before. -/
lemma back {frame : FrameId} (h : Leaves C w { m with current := frame } w₁ m₁) :
    Leaves C w m w₁ { m₁ with current := m.current } :=
  ⟨⟨h.founded.store, h.founded.table⟩, h.roles, h.retains.store, rfl, h.retains.distances⟩

end Leaves

/-- A machine with another store. -/
lemma Machine.Founded.withStore {C : Chronicle} {w w₁ : Roles} {m : Machine} (h : m.Founded C w)
    {s : Store} (hs : s.Founded C w₁) (hfollow : Follows w m.store w₁ s) :
    Leaves C w m w₁ { m with store := s } :=
  ⟨⟨hs, h.table⟩, hfollow.roles, hfollow.retains, rfl, rfl⟩

section Sequencing

variable {C : Chronicle} {w : Roles} {m : Machine} {α β : Type} {Q : Roles → Store → α → Prop}
  {R : Roles → Store → β → Prop} {x : Eval α}

namespace Eval.Ends

lemma of_eq {w₁ : Roles} {m₁ : Machine} {a : α} (h : x m = .ok a m₁) (hleaves : Leaves C w m w₁ m₁)
    (ha : Q w₁ m₁.store a) : Eval.Ends C w Q x m := by
  rw [Eval.Ends, h]
  exact ⟨w₁, hleaves, ha⟩

lemma congr {y : Eval α} (h : x m = y m) (hy : Eval.Ends C w Q y m) : Eval.Ends C w Q x m := by
  rwa [Eval.Ends, h]

/-- What an action that has given a result leaves. -/
lemma of_ok (h : Eval.Ends C w Q x m) {a : α} {m₁ : Machine} (hx : x m = .ok a m₁) :
    ∃ w₁, Leaves C w m w₁ m₁ ∧ Q w₁ m₁.store a := by
  rwa [Eval.Ends, hx] at h

lemma after (h : Eval.Ends C w Q x m) : ∃ w₁, Leaves C w m w₁ (Machine.after (x m)) := by
  unfold Eval.Ends at h
  cases hx : x m with
  | ok a m₁ =>
    rw [hx] at h
    obtain ⟨w₁, hleaves, -⟩ := h
    exact ⟨w₁, hleaves⟩
  | error stop m₁ =>
    rw [hx] at h
    exact h

lemma pure (h : m.Founded C w) {a : α} (ha : Q w m.store a) : Eval.Ends C w Q (pure a) m :=
  ⟨w, .refl h, ha⟩

lemma fail (h : m.Founded C w) {t : Token} {cause : FaultCause} :
    Eval.Ends C w Q (Eval.fail t cause) m :=
  ⟨w, .refl h⟩

lemma outOfFuel (h : m.Founded C w) : Eval.Ends C w Q Eval.outOfFuel m :=
  ⟨w, .refl h⟩

/-- The next action may take for granted what the first has done. -/
lemma bind {f : α → Eval β} (h : Eval.Ends C w Q x m)
    (hf : ∀ a m₁ w₁, x m = .ok a m₁ → Leaves C w m w₁ m₁ → Q w₁ m₁.store a →
      Eval.Ends C w₁ R (f a) m₁) : Eval.Ends C w R (x >>= f) m := by
  cases hx : x m with
  | ok a m₁ =>
    obtain ⟨w₁, hleaves, ha⟩ := h.of_ok hx
    have hrest := hf a m₁ w₁ hx hleaves ha
    unfold Eval.Ends at hrest ⊢
    rw [EStateM.bind_of_ok hx]
    cases hfa : f a m₁ with
    | ok b m₂ =>
      rw [hfa] at hrest
      obtain ⟨w₂, hleaves₂, hb⟩ := hrest
      exact ⟨w₂, hleaves.trans hleaves₂, hb⟩
    | error stop m₂ =>
      rw [hfa] at hrest
      obtain ⟨w₂, hleaves₂⟩ := hrest
      exact ⟨w₂, hleaves.trans hleaves₂⟩
  | error stop m₁ =>
    unfold Eval.Ends at h ⊢
    rw [hx] at h
    rw [EStateM.bind_of_error hx]
    exact h

lemma keepsReceivers (h : Eval.Ends C w Q x m) (hm : m.Founded C w) :
    m.store.KeepsReceivers (Machine.after (x m)).store := by
  obtain ⟨w₁, hleaves⟩ := h.after
  exact hleaves.follows.keepsReceivers hm.store hleaves.founded.store

/-- What the first of two actions leaves, the second keeps. -/
lemma keepsReceivers_bind {f : α → Eval β} (h : Eval.Ends C w Q x m)
    (hf : ∀ a m₁ w₁, x m = .ok a m₁ → Leaves C w m w₁ m₁ → Q w₁ m₁.store a →
      Eval.Ends C w₁ R (f a) m₁) :
    (Machine.after (x m)).store.KeepsReceivers (Machine.after ((x >>= f) m)).store := by
  cases hx : x m with
  | ok a m₁ =>
    obtain ⟨w₁, hleaves, ha⟩ := h.of_ok hx
    rw [EStateM.bind_of_ok hx]
    exact (hf a m₁ w₁ hx hleaves ha).keepsReceivers hleaves.founded
  | error stop m₁ =>
    rw [EStateM.bind_of_error hx]
    exact .refl _

/-- First an action that leaves the machine as it is. -/
lemma step {f : α → Eval β} {a : α} (h : x m = .ok a m) (hf : Eval.Ends C w R (f a) m) :
    Eval.Ends C w R (x >>= f) m :=
  .congr (EStateM.bind_of_ok h f) hf

/-- Afterwards the code is back in its frame. -/
lemma within {frame : FrameId} (h : Eval.Ends C w Q x { m with current := frame }) :
    Eval.Ends C w Q (Eval.within frame x) m := by
  unfold Eval.Ends at h ⊢
  rw [Eval.within]
  cases hx : x { m with current := frame } with
  | ok a m₁ =>
    rw [hx] at h
    obtain ⟨w₁, hleaves, ha⟩ := h
    exact ⟨w₁, hleaves.back, ha⟩
  | error stop m₁ =>
    rw [hx] at h
    obtain ⟨w₁, hleaves⟩ := h
    exact ⟨w₁, hleaves.back⟩

lemma orFail (h : m.Founded C w) {t : Token} {cause : FaultCause} {o : Option α}
    (ho : ∀ a, o = some a → Q w m.store a) : Eval.Ends C w Q (Eval.orFail t cause o) m := by
  cases o with
  | none => exact .fail h
  | some a => exact .pure h (ho a rfl)

/-- A function as a value. -/
lemma closure {y : Eval Closure} (h : Eval.Ends C w (Closure.Founded C) y m) :
    Eval.Ends C w (Value.Founded C) (Value.closure <$> y) m := by
  rw [map_eq_pure_bind]
  exact h.bind fun c m₁ w₁ _ hleaves hc => .pure hleaves.founded hc

end Eval.Ends

end Sequencing

lemma Eval.bind_eq (method : Closure) (i : InstanceId) (m : Machine) :
    Eval.bind method i m =
      .ok ⟨m.nextIdentity, method.decl, m.store.frames.size, method.isInitializer⟩
        { m with
          store := m.store.frameWith method.frame thisName (.ofInstance i)
          nextIdentity := m.nextIdentity + 1 } :=
  rfl

section Actions

variable {C : Chronicle} {w : Roles} {m : Machine}

lemma Store.Founded.getAt? {s : Store} (h : s.Founded C w) {f : FrameId} {d : Nat} {n : String}
    {v : Value} (hv : s.getAt? f d n = some v) : v.Founded C w s := by
  obtain ⟨g, -, hg⟩ := Option.bind_eq_some_iff.mp hv
  exact h.values g n v hg

lemma Store.Founded.field? {s : Store} (h : s.Founded C w) {i : InstanceId} {n : String}
    {v : Value} (hv : s.field? i n = some v) : v.Founded C w s := by
  obtain ⟨o, ho, hfield⟩ := Option.bind_eq_some_iff.mp hv
  exact (h.instances i o ho).fields n v hfield

lemma Store.Founded.method? {s : Store} (h : s.Founded C w) {i : InstanceId} {n : String}
    {method : Closure} (hm : s.method? i n = some method) :
    ∃ k : Making, k.Founded C w s ∧ k.own.methods[n]? = some method := by
  obtain ⟨o, ho, hfound⟩ := Option.bind_eq_some_iff.mp hm
  exact (h.instances i o ho).ofClass.findMethod? hfound

lemma Value.Founded.callable? {s : Store} {v : Value} (h : v.Founded C w s) {f : Callable}
    (hf : v.callable? = some f) : f.Founded C w s := by
  cases v with
  | closure c =>
    cases hf
    exact h
  | builtin b =>
    cases hf
    trivial
  | ofClass c =>
    cases hf
    exact h
  | _ => cases hf

namespace Machine.Founded

lemma lookUp (h : m.Founded C w) (i : ExprId) (t : Token) :
    Eval.Ends C w (Value.Founded C) (Eval.lookUp i t) m := by
  unfold Eval.Ends
  cases hd : m.distances[i]? with
  | some d =>
    rw [Eval.lookUp_of_some hd]
    exact Eval.Ends.orFail h fun v hv => h.store.getAt? hv
  | none =>
    rw [Eval.lookUp_of_none hd]
    refine Eval.Ends.orFail h fun v hv => ?_
    obtain ⟨g, -, hg⟩ := Option.bind_eq_some_iff.mp hv
    exact h.store.values g _ v hg

lemma define (h : m.Founded C w) {f : FrameId} (hlt : f < m.store.frames.size)
    (hrole : w f = .scope) {n : String} (hthis : n ≠ thisName) (hsuper : n ≠ superName) {v : Value}
    (hv : v.Founded C w m.store) : Eval.Ends C w (fun _ _ _ => True) (Eval.define f n v) m := by
  have hs := h.store.define hlt hrole hthis hsuper hv
  exact ⟨w, h.withStore hs ⟨.define m.store f n v, fun _ _ => rfl⟩, trivial⟩

/-- An assignment ends up among variables, never with a receiver or a superclass. -/
lemma assign (h : m.Founded C w) {i : ExprId} {t : Token} {value : Expr} {Γ : Layers}
    {home : Option Home} (hbelongs : (Expr.assign i t value).Belongs C Γ home)
    (hnested : Nested w m.store m.current Γ home) {v : Value} (hv : v.Founded C w m.store) :
    Eval.Ends C w (fun _ _ _ => True) (Eval.assign i t v) m := by
  obtain ⟨⟨σ, hσ, hlike⟩, -⟩ := hbelongs
  cases hlike with
  | assign _ href hthis hsuper =>
    cases href with
    | global hentry =>
      refine .congr (Eval.assign_of_none (h.table _ _ _ (hσ.entry _ _ _ hentry))) ?_
      refine .congr Eval.assignFrom_eq ?_
      rw [Store.frameOf?_globals h.store.outermost]
      split
      · exact h.define h.store.globals h.store.role hthis hsuper hv
      · exact .fail h
    | bound hentry hlayer hready =>
      obtain ⟨g, hg, hlt, hrole⟩ := hnested.exists_scope hlayer
        (by rcases hready with hready | ⟨hready, -⟩ <;> simp [hready]) hthis hsuper
      refine .congr (Eval.assign_of_some (h.table _ _ _ (hσ.entry _ _ _ hentry)) hg) ?_
      exact h.define hlt hrole hthis hsuper hv

lemma newFrame (h : m.Founded C w) (outer : FrameId) :
    Eval.Ends C w (fun w₁ s₁ f => f < s₁.frames.size ∧ w₁ f = .scope ∧ s₁.enclosing? f = some outer)
      (Eval.newFrame outer) m := by
  have hnew : Eval.newFrame outer m = .ok m.store.frames.size
      { m with store := (m.store.newFrame (some outer)).2 } := rfl
  have hfollow := Follows.update (.newFrame m.store (some outer)) w .scope
  refine .of_eq hnew (h.withStore (h.store.newFrame outer) hfollow)
    ⟨?_, Function.update_self .., ?_⟩
  · simp [Store.newFrame]
  · rw [Store.enclosing?_newFrame, if_pos rfl]

lemma defineAll (h : m.Founded C w) {f : FrameId} (hlt : f < m.store.frames.size)
    (hrole : w f = .scope) {bindings : List (String × Value)}
    (hnames : ∀ b ∈ bindings, b.1 ≠ thisName ∧ b.1 ≠ superName)
    (hvalues : ∀ b ∈ bindings, b.2.Founded C w m.store) :
    Eval.Ends C w (fun _ _ _ => True) (Eval.defineAll f bindings) m := by
  induction bindings generalizing m w with
  | nil => exact .pure h trivial
  | cons b bindings ih =>
    rw [List.forall_mem_cons] at hnames hvalues
    refine (h.define hlt hrole hnames.1.1 hnames.1.2 hvalues.1).bind fun _ m₁ w₁ _ hleaves _ => ?_
    exact ih hleaves.founded (hleaves.follows.lt hlt) ((hleaves.roles f hlt).trans hrole) hnames.2
      fun b hb => (hvalues.2 b hb).follow hleaves.follows

lemma newInstance (h : m.Founded C w) {c : Class} (hc : c.Founded C w m.store) :
    Eval.Ends C w (fun _ s₁ i => i < s₁.instances.size) (Eval.newInstance c) m := by
  refine ⟨w, h.withStore (h.store.newInstance hc) ⟨.newInstance m.store c, fun _ _ => rfl⟩, ?_⟩
  simp

lemma setField (h : m.Founded C w) (i : InstanceId) (n : String) {v : Value}
    (hv : v.Founded C w m.store) :
    Eval.Ends C w (fun _ _ _ => True) (Eval.change (Store.setField i n v)) m :=
  ⟨w, h.withStore (h.store.setField i n hv) ⟨.setField m.store i n v, fun _ _ => rfl⟩, trivial⟩

lemma close (h : m.Founded C w) {decl : FunctionDecl} {frame : FrameId} {Γ : Layers}
    {home : Option Home} (hdecl : decl.Belongs C Γ home) (hnested : Nested w m.store frame Γ home) :
    Eval.Ends C w (Closure.Founded C) (Eval.close decl frame false) m :=
  ⟨w, ⟨⟨h.store, h.table⟩, fun _ _ => rfl, .refl _, rfl, rfl⟩, ⟨Γ, home, hnested, hdecl⟩,
    fun hinit => (by cases hinit)⟩

/-- A method with its receiver, in a frame that is for both. -/
lemma bind (h : m.Founded C w) {k : Making} (hk : k.Founded C w m.store) {n : String}
    {method : Closure} (hmethod : k.own.methods[n]? = some method) {i : InstanceId}
    (hi : i < m.store.instances.size) :
    Eval.Ends C w (Closure.Founded C) (Eval.bind method i) m := by
  have hretains := Store.retains_frameWith m.store method.frame thisName (.ofInstance i)
  have hfollow := Follows.update hretains w (.receiver k method i)
  have hlt : m.store.frames.size <
      (m.store.frameWith method.frame thisName (.ofInstance i)).frames.size := by
    rw [Store.size_frameWith]
    exact Nat.lt_succ_self _
  obtain ⟨Γ, home, hnested, hmethods⟩ := hk.methods
  obtain ⟨hframe, -, hdecl⟩ := hmethods n method hmethod
  refine .of_eq (Eval.bind_eq method i m) ⟨⟨h.store.receiver hk hmethod hi, h.table⟩,
    hfollow.roles, hretains, rfl, rfl⟩ ⟨⟨Layer.receiver :: Γ, _, ?_, hdecl⟩, fun _ => ?_⟩
  · have hinner := hnested.follow hfollow
    rw [← hframe] at hinner
    exact .receiver hlt (Function.update_self ..) (Store.enclosing?_frameWith m.store _ _ _) hinner
  · exact ⟨hlt, k, method, i, Function.update_self ..⟩

lemma property (h : m.Founded C w) {i : InstanceId} (hi : i < m.store.instances.size) (t : Token) :
    Eval.Ends C w (Value.Founded C) (Eval.property i t) m := by
  cases hfield : m.store.field? i t.lexeme with
  | some v => exact .of_eq (Eval.property_of_field hfield) (.refl h) (h.store.field? hfield)
  | none =>
    cases hmethod : m.store.method? i t.lexeme with
    | none => exact .congr (Eval.property_of_none hfield hmethod) (.fail h)
    | some method =>
      obtain ⟨k, hk, hown⟩ := h.store.method? hmethod
      exact .congr (Eval.property_of_method hfield hmethod) (h.bind hk hown hi).closure

lemma superAndReceiver (h : m.Founded C w) (i : ExprId) (keyword : Token) :
    Eval.Ends C w (fun w₁ s₁ p => p.1.Founded C w₁ s₁ ∧ p.2 < s₁.instances.size)
      (Eval.superAndReceiver i keyword) m := by
  refine .step rfl ?_
  split
  · exact .fail h
  · refine .step rfl ?_
    split
    · rename_i parent hparent
      split
      · exact .fail h
      · refine .step rfl ?_
        split
        · rename_i receiver hreceiver
          exact .pure h ⟨h.store.getAt? hparent, h.store.getAt? hreceiver⟩
        · exact .fail h
    · exact .fail h

lemma superMethod (h : m.Founded C w) (i : ExprId) (keyword method : Token) :
    Eval.Ends C w (Value.Founded C) (Eval.superMethod i keyword method) m := by
  refine (h.superAndReceiver i keyword).bind fun p m₁ w₁ _ hleaves hp => ?_
  obtain ⟨parent, receiver⟩ := p
  dsimp only
  cases hfound : parent.findMethod? method.lexeme with
  | none => exact .fail hleaves.founded
  | some found =>
    obtain ⟨k, hk, hown⟩ := hp.1.findMethod? hfound
    exact (hleaves.founded.bind hk hown hp.2).closure

lemma callResult (h : m.Founded C w) (c : Closure) {x : Completion}
    (hx : x.Founded C w m.store) :
    Eval.Ends C w (Value.Founded C) (GermanLox.callResult c x) m := by
  cases hinit : c.isInitializer with
  | true =>
    refine .of_eq (callResult_of_initializer hinit x m) (.refl h) ?_
    cases hv : m.store.local? c.frame thisName with
    | none => trivial
    | some v => exact h.store.values _ _ v hv
  | false =>
    refine .of_eq (callResult_of_function hinit x m) (.refl h) ?_
    cases x with
    | normal => trivial
    | returned v => exact hx

lemma print (h : m.Founded C w) (host : Host) (v : Value) :
    Eval.Ends C w (fun _ _ _ => True) (Eval.print host v) m :=
  ⟨w, ⟨⟨h.store, h.table⟩, fun _ _ => rfl, .refl _, rfl, rfl⟩, trivial⟩

lemma readClock (h : m.Founded C w) (host : Host) :
    Eval.Ends C w (Value.Founded C) (Eval.readClock host) m :=
  ⟨w, ⟨⟨h.store, h.table⟩, fun _ _ => rfl, .refl _, rfl, rfl⟩, trivial⟩

lemma unary (h : m.Founded C w) (op : UnaryOp) (t : Token) (v : Value) :
    Eval.Ends C w (Value.Founded C) (op.apply t v) m := by
  cases op with
  | not => exact .pure h trivial
  | negate =>
    cases v with
    | number x => exact .pure h trivial
    | _ => exact .fail h

lemma arithmetic (h : m.Founded C w) {f : Float → Float → Value} (t : Token) (v u : Value)
    (hf : ∀ x y, (f x y).Founded C w m.store) :
    Eval.Ends C w (Value.Founded C) (GermanLox.arithmetic f t v u) m := by
  unfold GermanLox.arithmetic
  split
  · exact .pure h (hf _ _)
  · exact .fail h

lemma binary (h : m.Founded C w) (op : BinaryOp) (t : Token) (v u : Value) :
    Eval.Ends C w (Value.Founded C) (op.apply t v u) m := by
  cases op with
  | equal => exact .pure h trivial
  | notEqual => exact .pure h trivial
  | add =>
    change Eval.Ends C w _ (addition t v u) m
    unfold addition
    split
    · exact .pure h trivial
    · exact .pure h trivial
    · exact .fail h
  | _ =>
    refine h.arithmetic t v u ?_
    exact fun _ _ => trivial

end Machine.Founded

end Actions

/-- A table of methods closed in a frame; of two with one name it has the later. -/
structure Tabulates (frame : FrameId) (decls : List FunctionDecl)
    (methods : Std.TreeMap String Closure) : Prop where
  declared : ∀ n : String, methods[n]?.map Closure.decl =
    decls.reverse.find? fun decl => decl.name.lexeme = n
  closed : ∀ (n : String) (c : Closure), methods[n]? = some c →
    c.frame = frame ∧ c.isInitializer = decide (n = initializerName)

namespace Tabulates

variable {frame : FrameId} {decls : List FunctionDecl} {methods : Std.TreeMap String Closure}

lemma empty (frame : FrameId) : Tabulates frame [] {} :=
  ⟨fun n => by simp, fun n c hc => by simp at hc⟩

lemma insert (h : Tabulates frame decls methods) (decl : FunctionDecl) (identity : Nat) :
    Tabulates frame (decls ++ [decl]) (methods.insert decl.name.lexeme
      ⟨identity, decl, frame, decide (decl.name.lexeme = initializerName)⟩) := by
  constructor
  · intro n
    rw [Std.TreeMap.getElem?_insert, List.reverse_append, List.reverse_singleton,
      List.singleton_append, List.find?_cons]
    by_cases hn : decl.name.lexeme = n
    · simp [hn]
    · simpa [hn] using h.declared n
  · intro n c hc
    rw [Std.TreeMap.getElem?_insert] at hc
    by_cases hn : decl.name.lexeme = n
    · obtain rfl : _ = c := by simpa [hn] using hc
      exact ⟨rfl, rfl⟩
    · exact h.closed n c (by simpa [hn] using hc)

lemma mem (h : Tabulates frame decls methods) {n : String} {c : Closure}
    (hc : methods[n]? = some c) : c.decl ∈ decls := by
  have hfound := h.declared n
  rw [hc, Option.map_some] at hfound
  exact List.mem_reverse.mp (List.mem_of_find?_eq_some hfound.symm)

end Tabulates

/-- Closing methods takes an identity for each and changes nothing else. -/
lemma closeMethods_eq {frame : FrameId} {seen : List FunctionDecl}
    {methods : Std.TreeMap String Closure} (h : Tabulates frame seen methods)
    (decls : List FunctionDecl) (m : Machine) :
    ∃ closed, closeMethods frame methods decls m =
        .ok closed { m with nextIdentity := m.nextIdentity + decls.length } ∧
      Tabulates frame (seen ++ decls) closed := by
  induction decls generalizing seen methods m with
  | nil => exact ⟨methods, rfl, by rwa [List.append_nil]⟩
  | cons decl decls ih =>
    obtain ⟨closed, hclosed, htable⟩ :=
      ih (h.insert decl m.nextIdentity) { m with nextIdentity := m.nextIdentity + 1 }
    refine ⟨closed, ?_, by rwa [List.append_assoc, List.singleton_append] at htable⟩
    rw [List.length_cons, Nat.add_comm decls.length, ← Nat.add_assoc]
    exact hclosed

namespace Store

/-- The frame that methods of a class declared in a frame are closed in. -/
def frameForMethods (s : Store) (f : FrameId) : Option Class → FrameId
  | none => f
  | some _ => s.frames.size

/-- The store with that frame. -/
def forMethods (s : Store) (f : FrameId) : Option Class → Store
  | none => s
  | some c => s.frameWith f superName (.ofClass c)

lemma retains_forMethods (s : Store) (f : FrameId) (parent : Option Class) :
    s.Retains (s.forMethods f parent) := by
  cases parent with
  | none => exact .refl s
  | some c => exact retains_frameWith s f superName (.ofClass c)

end Store

lemma methodFrame_eq (parent : Option Class) (m : Machine) :
    methodFrame parent m = .ok (m.store.frameForMethods m.current parent)
      { m with store := m.store.forMethods m.current parent } := by
  cases parent <;> rfl

/-- A class as it is declared: its name first, a frame for its methods, and then the class. -/
lemma declareClass_eq {m : Machine} (hlt : m.current < m.store.frames.size) (name : Token)
    (parent : Option Class) (decls : List FunctionDecl) :
    let s := m.store.define m.current name.lexeme .nil
    ∃ methods, Tabulates (s.frameForMethods m.current parent) decls methods ∧
      declareClass name parent decls m = .ok ()
        { m with
          store := (s.forMethods m.current parent).define m.current name.lexeme
            (.ofClass ⟨⟨m.nextIdentity + decls.length, name.lexeme, methods⟩,
              Class.lineageOf parent⟩)
          nextIdentity := m.nextIdentity + decls.length + 1 } := by
  intro s
  obtain ⟨methods, hmethods, htable⟩ := closeMethods_eq
    (.empty (s.frameForMethods m.current parent)) decls
    { m with store := s.forMethods m.current parent }
  rw [List.nil_append] at htable
  have hbound : ((s.forMethods m.current parent).local? m.current name.lexeme).isSome := by
    refine (s.retains_forMethods m.current parent).bound _ _ ?_
    rw [Store.local?_define _ _ _ _ _ _ hlt, if_pos ⟨rfl, rfl⟩]
    rfl
  refine ⟨methods, htable, ?_⟩
  refine EStateM.bind_eq_of_ok rfl (EStateM.bind_eq_of_ok rfl ?_)
  refine EStateM.bind_eq_of_ok (methodFrame_eq parent _) (EStateM.bind_eq_of_ok hmethods ?_)
  refine EStateM.bind_eq_of_ok rfl ?_
  rw [Eval.assignFrom_of_bound hbound]
  rfl

section Classes

variable {C : Chronicle} {w : Roles} {m : Machine} {Γ Γ₁ : Layers} {home : Option Home}

/-- A class is founded where its methods are at home. -/
lemma Tabulates.founded {s : Store} {k : Making}
    (h : Tabulates k.frame k.decl.methods k.own.methods) (hmade : C.made k.decl k.parent k.made)
    (hlt : k.frame < s.frames.size) (hrole : w k.frame = k.role)
    (hnested : Nested w s k.frame Γ home)
    (hmethods : ∀ decl ∈ k.decl.methods,
      decl.Belongs C (Layer.receiver :: Γ) (some ⟨k.decl, decl⟩)) : k.Founded C w s := by
  refine ⟨hmade, hlt, hrole, Γ, home, hnested, fun n method hmethod => ?_⟩
  obtain ⟨hframe, hinit⟩ := h.closed n method hmethod
  exact ⟨hframe, hinit, hmethods _ (h.mem hmethod)⟩

/-- With the frame for its methods, the class is founded. -/
lemma Store.Founded.forMethods {s : Store} (h : s.Founded C w) {f : FrameId}
    (hlt : f < s.frames.size) (hrole : w f = .scope) (hnested : Nested w s f Γ home) {k : Making}
    (hframe : k.frame = s.frameForMethods f k.parent)
    (htable : Tabulates k.frame k.decl.methods k.own.methods)
    (hmade : C.made k.decl k.parent k.made)
    (hparent : ∀ p, k.parent = some p → p.Founded C w s)
    (hmethods : ∀ decl ∈ k.decl.methods,
      decl.Belongs C (Layer.receiver :: Layers.inherited k.parent Γ) (some ⟨k.decl, decl⟩)) :
    ∃ w₁, (s.forMethods f k.parent).Founded C w₁ ∧ Follows w s w₁ (s.forMethods f k.parent) ∧
      k.Founded C w₁ (s.forMethods f k.parent) := by
  cases hcase : k.parent with
  | none =>
    rw [hcase] at hframe hmethods
    refine ⟨w, h, .refl w s, ?_⟩
    rw [← show k.frame = f from hframe] at hlt hrole hnested
    exact htable.founded hmade hlt (by rw [hrole, Making.role, hcase]; rfl) hnested hmethods
  | some p =>
    rw [hcase] at hframe hmethods
    have hframe : k.frame = s.frames.size := hframe
    have hfollow := Follows.update (retains_frameWith s f superName (.ofClass p)) w (.superclass k)
    have hinner : Nested (Function.update w s.frames.size (.superclass k))
        (s.frameWith f superName (.ofClass p)) k.frame (Layer.superclass :: Γ) home := by
      rw [hframe]
      refine .superclass ?_ (Function.update_self ..) (enclosing?_frameWith s _ _ _)
        (hnested.follow hfollow)
      rw [size_frameWith]
      exact Nat.lt_succ_self _
    have hk : k.Founded C (Function.update w s.frames.size (.superclass k))
        (s.frameWith f superName (.ofClass p)) := by
      refine htable.founded hmade ?_ ?_ hinner hmethods
      · rw [hframe, size_frameWith]
        exact Nat.lt_succ_self _
      · rw [hframe, Function.update_self, Making.role, hcase]
        rfl
    refine ⟨_, h.frameWith f ((hparent p hcase).follow hfollow) ?_, hfollow, hk⟩
    exact ⟨hk, p, hcase, holdsOnly_frameWith s f superName (.ofClass p)⟩

/-- What is founded of a declared class: all of it, if the class is one of the session. -/
lemma Machine.Founded.declareClass (h : m.Founded C w) {K : ClassDecl}
    (hK : K.stmt.Belongs C Γ home Γ₁) (hnested : Nested w m.store m.current Γ home)
    {parent : Option Class} (hparent : ∀ p, parent = some p → p.Founded C w m.store)
    (hsome : parent.isSome = K.superclass.isSome)
    (hmade : ∀ m₁ c, GermanLox.declareClass K.name parent K.methods m = .ok () m₁ →
      m₁.store.local? m.current K.name.lexeme = some (.ofClass c) → C.made K parent c) :
    Eval.Ends C w (fun _ _ _ => True) (GermanLox.declareClass K.name parent K.methods) m := by
  obtain ⟨hname, hdeclares, -, hmethods⟩ := hK.classDecl
  have hlt := hnested.lt h.store.globals
  have hrole := hnested.role_of_declares h.store.role hdeclares
  obtain ⟨methods, htable, hdeclare⟩ := declareClass_eq hlt K.name parent K.methods
  let k : Making := ⟨K, parent, ⟨m.nextIdentity + K.methods.length, K.name.lexeme, methods⟩,
    (m.store.define m.current K.name.lexeme .nil).frameForMethods m.current parent⟩
  have hfollow₁ : Follows w m.store w (m.store.define m.current K.name.lexeme .nil) :=
    ⟨.define _ _ _ _, fun _ _ => rfl⟩
  have hs₁ := h.store.define (v := .nil) hlt hrole hname.ne_this hname.ne_super trivial
  have hlater := (Store.retains_forMethods (m.store.define m.current K.name.lexeme .nil) m.current
    parent).frames
  have hmade : C.made K parent k.made := by
    refine hmade _ k.made hdeclare ?_
    rw [Store.local?_define _ _ _ _ _ _ (Nat.lt_of_lt_of_le (hfollow₁.lt hlt) hlater),
      if_pos ⟨rfl, rfl⟩]
    rfl
  have hinherited : Layers.inherited K.superclass (Γ.enter K.name.lexeme true) =
      Layers.inherited parent (Γ.enter K.name.lexeme true) := by
    revert hsome
    cases parent <;> cases K.superclass <;> simp [Layers.inherited]
  rw [hinherited] at hmethods
  obtain ⟨w₂, hs₂, hfollow₂, hk⟩ := hs₁.forMethods (k := k) (hfollow₁.lt hlt) hrole
    ((hnested.follow hfollow₁).enter hdeclares true) rfl htable hmade
    (fun p hp => (hparent p hp).follow hfollow₁) hmethods
  have hfollow := hfollow₁.trans hfollow₂
  have hclass : k.made.Founded C w₂ _ := .mk hk fun p hp => (hparent p hp).follow hfollow
  have hs₃ := hs₂.define (v := .ofClass k.made) (hfollow.lt hlt)
    ((hfollow.roles _ hlt).trans hrole) hname.ne_this hname.ne_super hclass
  refine .of_eq hdeclare ⟨⟨hs₃, h.table⟩, hfollow.roles, ?_, rfl, rfl⟩ trivial
  exact hfollow.retains.trans (.define _ _ _ _)

end Classes

end GermanLox
