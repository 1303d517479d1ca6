import GermanLox.Proofs.Run.Congruence
import GermanLox.Proofs.Run.Reach
import GermanLox.Proofs.Sequencing

/-!
# What a run leaves of a machine

However a run ends, the running code is where it was. A store loses nothing: its frames keep their
links and names, its instances their classes and fields. And whatever needs a frame, a block, a
call, a method with its receiver or the methods of a class with a superclass, gets one that was not
there before.
-/

namespace GermanLox

/-- What a later store still has of a store. Values may have changed. -/
structure Store.Retains (s s' : Store) : Prop where
  frames : s.frames.size ≤ s'.frames.size
  link : ∀ f < s.frames.size, s'.enclosing? f = s.enclosing? f
  bound : ∀ f n, (s.local? f n).isSome → (s'.local? f n).isSome
  instances : ∀ (i : InstanceId) (o : Instance), s.instances[i]? = some o →
    ∃ o' : Instance, s'.instances[i]? = some o' ∧ o'.ofClass = o.ofClass ∧
      ∀ n : String, o.fields[n]?.isSome → o'.fields[n]?.isSome

namespace Store.Retains

variable {s s₁ s₂ : Store}

lemma refl (s : Store) : s.Retains s where
  frames := Nat.le_refl _
  link := fun _ _ => rfl
  bound := fun _ _ h => h
  instances := fun _ o h => ⟨o, h, rfl, fun _ hn => hn⟩

lemma trans (h : s.Retains s₁) (h₁ : s₁.Retains s₂) : s.Retains s₂ where
  frames := Nat.le_trans h.frames h₁.frames
  link := fun f hf => (h₁.link f (Nat.lt_of_lt_of_le hf h.frames)).trans (h.link f hf)
  bound := fun f n hn => h₁.bound f n (h.bound f n hn)
  instances := by
    intro i o ho
    obtain ⟨o₁, ho₁, hclass₁, hfields₁⟩ := h.instances i o ho
    obtain ⟨o₂, ho₂, hclass₂, hfields₂⟩ := h₁.instances i o₁ ho₁
    exact ⟨o₂, ho₂, hclass₂.trans hclass₁, fun n hn => hfields₂ n (hfields₁ n hn)⟩

lemma define (s : Store) (f : FrameId) (n : String) (v : Value) : s.Retains (s.define f n v) where
  frames := by simp [Store.define]
  link := fun g _ => Store.enclosing?_define s f n v g
  bound := fun _ _ h => Store.isSome_local?_define h f n v
  instances := fun _ o h => ⟨o, h, rfl, fun _ hn => hn⟩

lemma newFrame (s : Store) (outer : Option FrameId) : s.Retains (s.newFrame outer).2 where
  frames := by simp [Store.newFrame]
  link := fun f hf => by rw [Store.enclosing?_newFrame, if_neg (Nat.ne_of_lt hf)]
  bound := fun f n hn => by rwa [Store.local?_newFrame]
  instances := fun _ o h => ⟨o, h, rfl, fun _ hn => hn⟩

lemma newInstance (s : Store) (c : Class) : s.Retains (s.newInstance c).2 where
  frames := Nat.le_refl _
  link := fun _ _ => rfl
  bound := fun _ _ h => h
  instances := by
    intro i o ho
    obtain ⟨hi, -⟩ := Array.getElem?_eq_some_iff.mp ho
    refine ⟨o, ?_, rfl, fun _ hn => hn⟩
    simp only [Store.newInstance, Array.getElem?_push, if_neg (Nat.ne_of_lt hi), ho]

lemma setField (s : Store) (i : InstanceId) (n : String) (v : Value) :
    s.Retains (s.setField i n v) where
  frames := Nat.le_refl _
  link := fun _ _ => rfl
  bound := fun _ _ h => h
  instances := by
    intro j o ho
    by_cases hij : i = j
    · refine ⟨{ o with fields := o.fields.insert n v }, ?_, rfl, fun n' hn' => ?_⟩
      · simp [Store.setField, Array.getElem?_modify, hij, ho]
      · rw [Std.TreeMap.getElem?_insert]
        split
        · rfl
        · exact hn'
    · refine ⟨o, ?_, rfl, fun _ hn => hn⟩
      simp [Store.setField, Array.getElem?_modify, hij, ho]

end Store.Retains

/-- A later machine runs in the same frame, with the same distances, and has lost nothing. -/
structure Machine.Retains (m m' : Machine) : Prop where
  store : m.store.Retains m'.store
  current : m'.current = m.current
  distances : m'.distances = m.distances

namespace Machine.Retains

variable {m m₁ m₂ : Machine}

lemma refl (m : Machine) : m.Retains m :=
  ⟨.refl _, rfl, rfl⟩

lemma trans (h : m.Retains m₁) (h₁ : m₁.Retains m₂) : m.Retains m₂ :=
  ⟨h.store.trans h₁.store, h₁.current.trans h.current, h₁.distances.trans h.distances⟩

end Machine.Retains

namespace Eval

variable {α β : Type}

/-- An action that takes nothing from a machine, however it ends. -/
def Retaining (x : Eval α) : Prop :=
  ∀ m : Machine, m.Retains (Machine.after (x m))

namespace Retaining

variable {x : Eval α} {f : α → Eval β}

lemma of_ok (hx : x.Retaining) {m m₁ : Machine} {a : α} (h : x m = .ok a m₁) : m.Retains m₁ := by
  have hretains := hx m
  rwa [h] at hretains

lemma bind (hx : x.Retaining) (hf : ∀ a, (f a).Retaining) : (x >>= f).Retaining := by
  intro m
  have hretains := hx m
  change m.Retains (Machine.after (EStateM.bind x f m))
  rw [EStateM.bind]
  cases hresult : x m with
  | ok a m₁ =>
    rw [hresult] at hretains
    exact hretains.trans (hf a m₁)
  | error stop m₁ =>
    rw [hresult] at hretains
    exact hretains

/-- Afterwards the code is back in its frame, however the run in the other one ends. -/
lemma within (hx : x.Retaining) (frame : FrameId) : (Eval.within frame x).Retaining := by
  intro m
  have hretains := hx { m with current := frame }
  rw [Eval.within]
  cases hresult : x { m with current := frame } with
  | ok a m₁ =>
    rw [hresult] at hretains
    exact ⟨hretains.store, rfl, hretains.distances⟩
  | error stop m₁ =>
    rw [hresult] at hretains
    exact ⟨hretains.store, rfl, hretains.distances⟩

end Retaining

end Eval

lemma congruent_retaining : Congruent fun _ x _ => x.Retaining where
  pure := fun _ m => .refl m
  bind := Eval.Retaining.bind
  within := fun frame hx => hx.within frame
  fail := fun _ _ m => .refl m
  freshIdentity := fun _ => ⟨.refl _, rfl, rfl⟩
  inspect := fun _ m => .refl m
  define := fun frame name v m => ⟨.define m.store frame name v, rfl, rfl⟩
  setField := fun i name v m => ⟨.setField m.store i name v, rfl, rfl⟩
  currentFrame := fun m => .refl m
  newFrame := fun outer m => ⟨.newFrame m.store (some outer), rfl, rfl⟩
  newInstance := fun c m => ⟨.newInstance m.store c, rfl, rfl⟩
  distance? := fun _ m => .refl m
  getAt? := fun _ _ m => .refl m

/-- Whatever is run takes nothing from the machine. -/
theorem retaining (host : Host) (fuel : Nat) :
    Related (fun _ x _ => x.Retaining) host host fuel fuel :=
  congruent_retaining.related ⟨fun _ _ => ⟨.refl _, rfl, rfl⟩, fun _ => ⟨.refl _, rfl, rfl⟩⟩
    (fun m => .refl m) fuel

/-- A call that the evaluator makes starts on a store that has lost nothing. -/
lemma Enters.retains {host : Host} {fuel : Nat} {t t₁ : Task} {m m₁ : Machine}
    (h : Enters host fuel t m t₁ m₁) : m.store.Retains m₁.store := by
  have hrun := retaining host fuel
  cases h with
  | binaryRight hleft => exact ((hrun.evaluate _).of_ok hleft).store
  | logicalRight hleft => exact ((hrun.evaluate _).of_ok hleft).store
  | arguments hcallee => exact ((hrun.evaluate _).of_ok hcallee).store
  | call hcallee hargs =>
    exact ((hrun.evaluate _).of_ok hcallee).store.trans ((hrun.evaluateAll _).of_ok hargs).store
  | field htarget => exact ((hrun.evaluate _).of_ok htarget).store
  | others hfirst => exact ((hrun.evaluate _).of_ok hfirst).store
  | body hframe hparams =>
    exact (Eval.Retaining.of_ok (congruent_retaining.newFrame _) hframe).store.trans
      (Eval.Retaining.of_ok (congruent_retaining.defineAll _ _) hparams).store
  | initializer hinstance _ hbound =>
    exact (Eval.Retaining.of_ok (congruent_retaining.newInstance _) hinstance).store.trans
      (Eval.Retaining.of_ok (congruent_retaining.bindMethod _ _) hbound).store
  | block hframe => exact (Eval.Retaining.of_ok (congruent_retaining.newFrame _) hframe).store
  | thenBranch hcondition => exact ((hrun.evaluate _).of_ok hcondition).store
  | elseBranch hcondition => exact ((hrun.evaluate _).of_ok hcondition).store
  | statements hfirst => exact ((hrun.execute _).of_ok hfirst).store
  | loopBody hcondition => exact ((hrun.evaluate _).of_ok hcondition).store
  | again hcondition _ hbody =>
    exact ((hrun.evaluate _).of_ok hcondition).store.trans ((hrun.execute _).of_ok hbody).store
  | _ => exact .refl _

/-- Wherever a run comes by, the store has lost nothing since its start. -/
theorem Reaches.retains {host : Host} {fuel n : Nat} {t t₁ : Task} {m m₁ : Machine}
    (h : Reaches host fuel t m n t₁ m₁) : m.store.Retains m₁.store := by
  induction h with
  | refl => exact .refl _
  | step _ hnext ih => exact ih.trans hnext.retains

/-- A frame is added inside of another one, in a place where there was none. -/
structure OpensFrame (m : Machine) (frame outer : FrameId) (m₁ : Machine) : Prop where
  fresh : m.store.frames.size ≤ frame
  lt : frame < m₁.store.frames.size
  link : m₁.store.enclosing? frame = some outer
  retains : m.Retains m₁

namespace OpensFrame

variable {m m₁ m₂ : Machine} {frame outer : FrameId}

lemma newFrame (m : Machine) (outer : FrameId) :
    OpensFrame m m.store.frames.size outer
      { m with store := (m.store.newFrame (some outer)).2 } where
  fresh := Nat.le_refl _
  lt := by simp [Store.newFrame]
  link := by rw [Store.enclosing?_newFrame, if_pos rfl]
  retains := ⟨.newFrame m.store (some outer), rfl, rfl⟩

/-- What happens afterwards leaves the frame where it is. -/
lemma before (h : OpensFrame m frame outer m₁) (h₁ : m₁.Retains m₂) :
    OpensFrame m frame outer m₂ where
  fresh := h.fresh
  lt := Nat.lt_of_lt_of_le h.lt h₁.store.frames
  link := (h₁.store.link frame h.lt).trans h.link
  retains := h.retains.trans h₁

/-- A place that is empty later was empty before. -/
lemma after (h : m.Retains m₁) (h₁ : OpensFrame m₁ frame outer m₂) :
    OpensFrame m frame outer m₂ where
  fresh := Nat.le_trans h.store.frames h₁.fresh
  lt := h₁.lt
  link := h₁.link
  retains := h.trans h₁.retains

/-- The frame with a variable in it. -/
lemma define (h : OpensFrame m frame outer m₁) (name : String) (v : Value) :
    OpensFrame m frame outer { m₁ with store := m₁.store.define frame name v } ∧
      (m₁.store.define frame name v).local? frame name = some v := by
  refine ⟨h.before ⟨.define m₁.store frame name v, rfl, rfl⟩, ?_⟩
  rw [Store.local?_define _ _ _ _ _ _ h.lt, if_pos ⟨rfl, rfl⟩]

end OpensFrame

/-- A method is bound to a receiver, in a frame of its own inside of the method's. -/
structure BindsMethod (m : Machine) (method : Closure) (receiver : InstanceId) (bound : Closure)
    (m₁ : Machine) : Prop where
  opens : OpensFrame m bound.frame method.frame m₁
  receiver : m₁.store.local? bound.frame thisName = some (.ofInstance receiver)
  decl : bound.decl = method.decl
  isInitializer : bound.isInitializer = method.isInitializer

lemma Eval.bind_bindsMethod (method : Closure) (i : InstanceId) (m : Machine) :
    ∃ bound m₁, Eval.bind method i m = .ok bound m₁ ∧ BindsMethod m method i bound m₁ := by
  obtain ⟨hopens, hreceiver⟩ := (OpensFrame.newFrame m method.frame).define thisName (.ofInstance i)
  exact ⟨_, _, rfl, hopens.before ⟨.refl _, rfl, rfl⟩, hreceiver, rfl, rfl⟩

lemma Eval.defineAll_ok (frame : FrameId) (bindings : List (String × Value)) (m : Machine) :
    ∃ m₁, Eval.defineAll frame bindings m = .ok () m₁ := by
  induction bindings generalizing m with
  | nil => exact ⟨m, rfl⟩
  | cons binding bindings ih => exact ih _

/-- The methods of a class with a superclass have a frame that names it. -/
lemma methodFrame_opens (parent : Class) (m : Machine) :
    ∃ frame m₁, methodFrame (some parent) m = .ok frame m₁ ∧ OpensFrame m frame m.current m₁ ∧
      m₁.store.local? frame superName = some (.ofClass parent) := by
  obtain ⟨hopens, hsuper⟩ := (OpensFrame.newFrame m m.current).define superName (.ofClass parent)
  exact ⟨_, _, rfl, hopens, hsuper⟩

/-- What a call of the evaluator needs a frame for, if anything, it does with a frame that it adds:
a block and the body of a function run in it, a bound method is closed in it, and so are the methods
of a class with a superclass. -/
def Task.OpensFrames (host : Host) (fuel : Nat) (m : Machine) : Task → Prop
  | .execute (.block body) => ∃ frame m₁, OpensFrame m frame m.current m₁ ∧
      GermanLox.execute host (fuel + 1) (.block body) m =
        Eval.within frame (GermanLox.executeAll host fuel body) m₁
  | .call (.closure c) args => ∃ frame m₁, OpensFrame m frame c.frame m₁ ∧
      GermanLox.call host (fuel + 1) (.closure c) args m =
        (Eval.within frame (GermanLox.executeAll host fuel c.decl.body) >>= callResult c) m₁
  | .call (.ofClass c) args => ∀ init, c.initializer? = some init →
      ∃ i bound m₁, BindsMethod m init i bound m₁ ∧
        GermanLox.call host (fuel + 1) (.ofClass c) args m =
          (GermanLox.call host fuel (.closure bound) args >>= fun _ => pure (.ofInstance i)) m₁
  | .evaluate (.get id object name) => ∀ i m₁ method,
      GermanLox.evaluate host fuel object m = .ok (.ofInstance i) m₁ →
      m₁.store.field? i name.lexeme = none → m₁.store.method? i name.lexeme = some method →
      ∃ bound m₂, BindsMethod m₁ method i bound m₂ ∧
        GermanLox.evaluate host (fuel + 1) (.get id object name) m = .ok (.closure bound) m₂
  | .evaluate (.super id keyword name) => ∀ parent i m₁ method,
      Eval.superAndReceiver id keyword m = .ok (parent, i) m₁ →
      parent.findMethod? name.lexeme = some method →
      ∃ bound m₂, BindsMethod m₁ method i bound m₂ ∧
        GermanLox.evaluate host (fuel + 1) (.super id keyword name) m = .ok (.closure bound) m₂
  | .execute (.classDecl name superclass methods) => ∀ parent m₁,
      GermanLox.evaluateSuperclass host fuel name superclass m = .ok (some parent) m₁ →
      ∃ frame m₂, OpensFrame m₁ frame m.current m₂ ∧
        m₂.store.local? frame superName = some (.ofClass parent) ∧
        GermanLox.execute host (fuel + 1) (.classDecl name superclass methods) m =
          (do
            let closed ← closeMethods frame {} methods
            let identity ← Eval.freshIdentity
            Eval.assignFrom m.current name
              (.ofClass ⟨⟨identity, name.lexeme, closed⟩, Class.lineageOf (some parent)⟩)
            return Completion.normal : Eval Completion) m₂
  | _ => True

section Frames

variable (host : Host) (fuel : Nat) (m : Machine)

lemma opensFrames_block (body : List Stmt) : (Task.execute (.block body)).OpensFrames host fuel m :=
  ⟨_, _, .newFrame m m.current, rfl⟩

lemma opensFrames_closure (c : Closure) (args : List Value) :
    (Task.call (.closure c) args).OpensFrames host fuel m := by
  obtain ⟨m₁, hparams⟩ := Eval.defineAll_ok m.store.frames.size
    ((c.decl.params.map Token.lexeme).zip args)
    { m with store := (m.store.newFrame (some c.frame)).2 }
  have hopens := (OpensFrame.newFrame m c.frame).before
    (Eval.Retaining.of_ok (congruent_retaining.defineAll _ _) hparams)
  exact ⟨_, m₁, hopens, EStateM.bind_eq_of_ok rfl (EStateM.bind_of_ok hparams _)⟩

lemma opensFrames_class (c : Class) (args : List Value) :
    (Task.call (.ofClass c) args).OpensFrames host fuel m := by
  intro init hinit
  have hinstance : m.Retains { m with store := (m.store.newInstance c).2 } :=
    ⟨.newInstance m.store c, rfl, rfl⟩
  obtain ⟨bound, m₁, hbound, hopens, hreceiver, hdecl, hinitializer⟩ :=
    Eval.bind_bindsMethod init m.store.instances.size _
  refine ⟨_, bound, m₁, ⟨hopens.after hinstance, hreceiver, hdecl, hinitializer⟩,
    EStateM.bind_eq_of_ok rfl ?_⟩
  simp only [hinit]
  exact EStateM.bind_of_ok hbound _

lemma opensFrames_get (id : ExprId) (object : Expr) (name : Token) :
    (Task.evaluate (.get id object name)).OpensFrames host fuel m := by
  intro i m₁ method hobject hfield hmethod
  obtain ⟨bound, m₂, hbound, hbinds⟩ := Eval.bind_bindsMethod method i m₁
  refine ⟨bound, m₂, hbinds, EStateM.bind_eq_of_ok hobject ?_⟩
  exact (Eval.property_of_method hfield hmethod).trans (EStateM.map_of_ok hbound _)

lemma opensFrames_super (id : ExprId) (keyword name : Token) :
    (Task.evaluate (.super id keyword name)).OpensFrames host fuel m := by
  intro parent i m₁ method hsuper hmethod
  obtain ⟨bound, m₂, hbound, hbinds⟩ := Eval.bind_bindsMethod method i m₁
  refine ⟨bound, m₂, hbinds, EStateM.bind_eq_of_ok hsuper ?_⟩
  simp only [hmethod]
  exact EStateM.bind_of_ok hbound _

lemma opensFrames_classDecl (name : Token) (superclass : Option Expr)
    (methods : List FunctionDecl) :
    (Task.execute (.classDecl name superclass methods)).OpensFrames host fuel m := by
  intro parent m₁ hparent
  have hcurrent := (((retaining host fuel).evaluateSuperclass _ _).of_ok hparent).current
  rw [← hcurrent]
  have hname : m₁.Retains { m₁ with store := m₁.store.define m₁.current name.lexeme .nil } :=
    ⟨.define m₁.store m₁.current name.lexeme .nil, rfl, rfl⟩
  obtain ⟨frame, m₂, hframe, hopens, hsuper⟩ := methodFrame_opens parent
    { m₁ with store := m₁.store.define m₁.current name.lexeme .nil }
  refine ⟨frame, m₂, hopens.after hname, hsuper, EStateM.bind_eq_of_ok hparent ?_⟩
  simp only [declareClass, bind_assoc]
  exact EStateM.bind_eq_of_ok rfl (EStateM.bind_eq_of_ok rfl (EStateM.bind_of_ok hframe _))

/-- All that needs a frame gets a new one. -/
lemma opensFrames (t : Task) : t.OpensFrames host fuel m := by
  cases t with
  | evaluate e =>
    cases e with
    | get id object name => exact opensFrames_get host fuel m id object name
    | super id keyword name => exact opensFrames_super host fuel m id keyword name
    | _ => trivial
  | call f args =>
    cases f with
    | closure c => exact opensFrames_closure host fuel m c args
    | ofClass c => exact opensFrames_class host fuel m c args
    | builtin b => trivial
  | execute s =>
    cases s with
    | block body => exact opensFrames_block host fuel m body
    | classDecl name superclass methods =>
      exact opensFrames_classDecl host fuel m name superclass methods
    | _ => trivial
  | _ => trivial

end Frames

/-- For every machine, table and code: an expression, a statement, a block in any frame and a call
of anything leave the running code in the frame where it was, whether they give a value, end
normally, return, fail or run out of fuel; frames keep their links and their names, instances their
classes and their fields. Whatever the evaluator comes by on the way needs a frame for, it does with
a frame that was not there before. -/
theorem run_retains (host : Host) (fuel : Nat) (m : Machine) :
    (∀ e, m.Retains (Machine.after (evaluate host fuel e m))) ∧
      (∀ s, m.Retains (Machine.after (execute host fuel s m))) ∧
      (∀ frame body, m.Retains
        (Machine.after (Eval.within frame (executeAll host fuel body) m))) ∧
      (∀ f args, m.Retains (Machine.after (call host fuel f args m))) ∧
      ∀ t n t₁ m₁, Reaches host fuel t m (n + 1) t₁ m₁ →
        m.store.Retains m₁.store ∧ t₁.OpensFrames host n m₁ := by
  have hrun := retaining host fuel
  refine ⟨fun e => hrun.evaluate e m, fun s => hrun.execute s m,
    fun frame body => (hrun.executeAll body).within frame m, fun f args => hrun.call f args m, ?_⟩
  intro t n t₁ m₁ hreach
  exact ⟨hreach.retains, opensFrames host n m₁ t₁⟩

private def silentHost : Host :=
  ⟨fun _ => 0, fun _ => false⟩

/-- The inner one of two blocks runs in a frame that the machine had neither at first nor when it
came by. -/
theorem run_retains_nestedBlock :
    ∃ m₁ frame m₂, Reaches silentHost 9 (.execute (.block [.block []])) .initial 7
        (.execute (.block [])) m₁ ∧
      Machine.initial.store.Retains m₁.store ∧ OpensFrame m₁ frame m₁.current m₂ ∧
      Machine.initial.store.frames.size < frame := by
  have hreach : Reaches silentHost 9 (.execute (.block [.block []])) .initial 7
      (.execute (.block [])) _ := .step (.step .refl (.block rfl)) .statement
  obtain ⟨-, -, -, -, hway⟩ := run_retains silentHost 9 .initial
  obtain ⟨hretains, frame, m₂, hopens, -⟩ := hway _ _ _ _ hreach
  exact ⟨_, frame, m₂, hreach, hretains, hopens,
    Nat.lt_of_lt_of_le (by decide +kernel) hopens.fresh⟩

end GermanLox
