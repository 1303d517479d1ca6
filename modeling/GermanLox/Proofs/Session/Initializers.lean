import GermanLox.Proofs.Equality
import GermanLox.Proofs.Session.History

/-!
# Initializers and their receivers

A frame for a receiver holds `dies` and nothing else, and the instance in it never changes. All
functions marked as initializers that a program can get hold of are closed in such a frame, so
that every call of one that does not fail gives the instance that it was bound to.
-/

namespace GermanLox

/-- A frame that holds `dies` and nothing else, bound to an instance. -/
structure Store.Receives (s : Store) (f : FrameId) (i : InstanceId) : Prop where
  only : s.HoldsOnly f thisName (.ofInstance i)
  lt : i < s.instances.size

section Receivers

variable {C : Chronicle} {w : Roles} {s : Store} {f : FrameId} {i : InstanceId}

lemma Store.Founded.receives (h : s.Founded C w) (hlt : f < s.frames.size)
    (hi : (w f).receiver? = some i) : s.Receives f i := by
  have hrole := h.roles f hlt
  revert hrole hi
  cases w f with
  | receiver k method j =>
    rintro ⟨⟩ ⟨-, -, -, hj, honly⟩
    exact ⟨honly, hj⟩
  | _ => rintro ⟨⟩

/-- Only methods with the name of initializers are marked. -/
lemma Making.Founded.isInitializer {k : Making} (hk : k.Founded C w s) {n : String}
    {method : Closure} (hmethod : k.own.methods[n]? = some method) :
    method.isInitializer = decide (n = initializerName) := by
  obtain ⟨Γ, home, -, hmethods⟩ := hk.methods
  exact (hmethods n method hmethod).2.1

/-- What a call of an initializer gives is looked up when its body has ended. -/
lemma call_of_initializer {host : Host} {fuel : Nat} {c : Closure} {args : List Value}
    {m m₁ : Machine} {v : Value} (hinit : c.isInitializer = true)
    (h : call host fuel (.closure c) args m = .ok v m₁) :
    v = (m₁.store.local? c.frame thisName).getD .nil := by
  cases fuel with
  | zero => cases h
  | succ fuel =>
    rw [call] at h
    obtain ⟨frame, m₂, -, h⟩ := EStateM.bind_eq_ok h
    obtain ⟨_, m₃, -, h⟩ := EStateM.bind_eq_ok h
    obtain ⟨x, m₄, -, h⟩ := EStateM.bind_eq_ok h
    rw [callResult_of_initializer hinit] at h
    cases h
    rfl

end Receivers

namespace Session.History

/-- The machines that a session passes: those that its calls start on and leave, and those that are
left when all is done. -/
inductive Passes : History → Machine → Prop
  | idle {h} : Passes h h.session.machine
  | start {h host n t m} (hcomes : h.ComesBy host n t m) : Passes h m
  | finish {h host n t m} (hcomes : h.ComesBy host n t m) :
    Passes h (Machine.after (t.run host n m))
  | before {h host fuel source m} (hbefore : Passes h m) : Passes (.run h host fuel source) m

/-- The functions that a program can get hold of, and a machine with which it does: as a variable or
a field, as what is called or an argument of it, and as the value of an expression. -/
inductive Obtains (h : History) : Closure → Machine → Prop
  | ofVariable {m f x c} (hm : h.Passes m) (hc : m.store.local? f x = some (.closure c)) :
    Obtains h c m
  | ofField {m i x c} (hm : h.Passes m) (hc : m.store.field? i x = some (.closure c)) :
    Obtains h c m
  | called {host n c args m} (hcomes : h.ComesBy host n (.call (.closure c) args) m) :
    Obtains h c m
  | argument {host n f args m c} (hcomes : h.ComesBy host n (.call f args) m)
    (hc : .closure c ∈ args) : Obtains h c m
  | value {host n e m c m₁} (hcomes : h.ComesBy host n (.evaluate e) m)
    (hc : evaluate host n e m = .ok (.closure c) m₁) : Obtains h c m₁

variable {h : History} {host : Host} {n : Nat} {t t₁ : Task} {m m₁ : Machine} {w : Roles}

lemma ComesBy.enter (hcomes : h.ComesBy host (n + 1) t m) (hnext : Enters host n t m t₁ m₁) :
    h.ComesBy host n t₁ m₁ := by
  generalize hk : n + 1 = k at hcomes
  induction hcomes with
  | now hcompile hreach =>
    subst hk
    exact .now hcompile (.step hreach hnext)
  | before _ ih => exact .before (ih hnext hk)

/-- A founded store whose receivers the session keeps. -/
structure Settled (h : History) (C : Chronicle) (w : Roles) (s : Store) : Prop where
  founded : s.Founded C w
  keeps : s.KeepsReceivers h.session.machine.store

namespace Sustains

variable {C : Chronicle}

lemma settled (hs : h.Sustains C w host n t m) : h.Settled C w m.store :=
  ⟨hs.machine.store,
    ((hs.task.ends hs.machine hs.recorded).keepsReceivers hs.machine).trans hs.keeps⟩

/-- The same of what a call has given. -/
lemma settled_ok (hs : h.Sustains C w host n t m) {a : t.Result} (hok : t.run host n m = .ok a m₁) :
    ∃ w₁, h.Settled C w₁ m₁.store ∧ t.Yields C w₁ m₁.store a := by
  obtain ⟨w₁, hleaves, ha⟩ := (hs.task.ends hs.machine hs.recorded).of_ok hok
  have hkeeps := hs.keeps
  rw [hok] at hkeeps
  exact ⟨w₁, ⟨hleaves.founded.store, hkeeps⟩, ha⟩

end Sustains

lemma Passes.settled (hm : h.Passes m) : ∃ C w, h.Settled C w m.store := by
  induction hm with
  | @idle h =>
    obtain ⟨w, hw⟩ := h.founded
    exact ⟨_, w, hw.store, .refl _⟩
  | start hcomes =>
    obtain ⟨C, w, hs⟩ := hcomes.sustains
    exact ⟨C, w, hs.settled⟩
  | finish hcomes =>
    obtain ⟨C, w, hs⟩ := hcomes.sustains
    obtain ⟨w₁, hleaves⟩ := (hs.task.ends hs.machine hs.recorded).after
    exact ⟨C, w₁, hleaves.founded.store, hs.keeps⟩
  | @before h host fuel source m _ ih =>
    obtain ⟨C, w, hs⟩ := ih
    exact ⟨C, w, hs.founded, hs.keeps.trans (h.keepsReceivers_run host fuel source)⟩

lemma Obtains.founded {c : Closure} (hc : h.Obtains c m) :
    ∃ C w, h.Settled C w m.store ∧ c.Founded C w m.store := by
  cases hc with
  | ofVariable hm hc =>
    obtain ⟨C, w, hs⟩ := hm.settled
    exact ⟨C, w, hs, hs.founded.values _ _ _ hc⟩
  | ofField hm hc =>
    obtain ⟨C, w, hs⟩ := hm.settled
    exact ⟨C, w, hs, hs.founded.field? hc⟩
  | called hcomes =>
    obtain ⟨C, w, hs⟩ := hcomes.sustains
    exact ⟨C, w, hs.settled, hs.task.1⟩
  | argument hcomes hc =>
    obtain ⟨C, w, hs⟩ := hcomes.sustains
    exact ⟨C, w, hs.settled, hs.task.2 _ hc⟩
  | value hcomes hc =>
    obtain ⟨C, w, hs⟩ := hcomes.sustains
    obtain ⟨w₁, hsettled, hv⟩ := hs.settled_ok hc
    exact ⟨C, w₁, hsettled, hv⟩

/-- Receivers are the same wherever a session passes. -/
lemma Settled.receiver?_eq {C : Chronicle} {w w₁ : Roles}
    (hw : h.session.machine.Founded h.chronicle w) (hs : h.Settled C w₁ m.store) {f : FrameId}
    (hlt : f < m.store.frames.size) : (w f).receiver? = (w₁ f).receiver? := by
  have hthis := hs.keeps.this f hlt
  rw [hw.store.local?_this (Nat.lt_of_lt_of_le hlt hs.keeps.frames),
    hs.founded.local?_this hlt] at hthis
  exact Option.map_injective (fun _ _ => Value.ofInstance.inj) hthis

/-- A frame that names a receiver anywhere is one for it everywhere. -/
lemma Settled.receiver?_of_local {C : Chronicle} {w w₁ : Roles}
    (hw : h.session.machine.Founded h.chronicle w) (hs : h.Settled C w₁ m.store) {f : FrameId}
    (hlt : f < m.store.frames.size) {i : InstanceId}
    (hi : m.store.local? f thisName = some (.ofInstance i)) : (w f).receiver? = some i := by
  rw [hs.founded.local?_this hlt] at hi
  rw [hs.receiver?_eq hw hlt]
  exact Option.map_injective (fun _ _ => Value.ofInstance.inj) hi

/-- A call of a marked function gives the receiver that its frame is for. -/
lemma ComesBy.call_initializer (hw : h.session.machine.Founded h.chronicle w) {c : Closure}
    {args : List Value} (hcomes : h.ComesBy host n (.call (.closure c) args) m)
    (hinit : c.isInitializer = true) {v : Value}
    (hcall : call host n (.closure c) args m = .ok v m₁) :
    ∃ i, (w c.frame).receiver? = some i ∧ v = .ofInstance i := by
  obtain ⟨C, w₁, hs⟩ := hcomes.sustains
  obtain ⟨hlt, k, method, i, hrole⟩ := Closure.Founded.receiver hs.task.1 hinit
  refine ⟨i, (hs.settled.receiver?_eq hw hlt).trans (congrArg Role.receiver? hrole), ?_⟩
  have hkeeps := (hs.task.ends hs.machine hs.recorded).keepsReceivers hs.machine
  rw [show (Task.call (.closure c) args).run host n m = .ok v m₁ from hcall] at hkeeps
  have hthis := hkeeps.this c.frame hlt
  rw [hs.machine.store.local?_this hlt, hrole] at hthis
  rw [call_of_initializer hinit hcall]
  exact congrArg (·.getD .nil) hthis

/-- Calling a class calls its initializer, bound to the new instance. -/
lemma ComesBy.call_class (hw : h.session.machine.Founded h.chronicle w) {c : Class}
    {args : List Value} (hcomes : h.ComesBy host (n + 1) (.call (.ofClass c) args) m)
    {init : Closure} (hinit : c.initializer? = some init) {v : Value}
    (hcall : call host (n + 1) (.ofClass c) args m = .ok v m₁) :
    ∃ bound m₂, h.ComesBy host n (.call (.closure bound) args) m₂ ∧ bound.decl = init.decl ∧
      bound.isInitializer = true ∧ (w bound.frame).receiver? = some m.store.instances.size ∧
      v = .ofInstance m.store.instances.size ∧ call host n (.closure bound) args m₂ = .ok v m₁ := by
  rw [call] at hcall
  obtain ⟨i, m₂, hinstance, hcall⟩ := EStateM.bind_eq_ok hcall
  obtain rfl : m.store.instances.size = i := by
    cases hinstance
    rfl
  simp only [hinit] at hcall
  obtain ⟨bound, m₃, hbound, hcall⟩ := EStateM.bind_eq_ok hcall
  obtain ⟨u, m₄, hu, hresult⟩ := EStateM.bind_eq_ok hcall
  cases hresult
  have hcomes₁ := hcomes.enter (.initializer hinstance hinit hbound)
  obtain ⟨bound', m', hbound', hbinds⟩ := Eval.bind_bindsMethod init m.store.instances.size m₂
  cases hbound.symm.trans hbound'
  have hmarked : bound.isInitializer = true := by
    obtain ⟨C, w₁, hs⟩ := hcomes.sustains
    obtain ⟨k, hk, hown⟩ := Class.Founded.findMethod? hs.task.1 hinit
    rw [hbinds.isInitializer, hk.isInitializer hown]
    rfl
  obtain ⟨C, w₁, hs⟩ := hcomes₁.sustains
  have hreceiver := hs.settled.receiver?_of_local hw hbinds.opens.lt hbinds.receiver
  obtain ⟨j, hj, rfl⟩ := hcomes₁.call_initializer hw hmarked hu
  cases hj.symm.trans hreceiver
  exact ⟨bound, m₃, hcomes₁, hbinds.decl, hmarked, hreceiver, rfl, hu⟩

/-- A method that an expression binds is one for its receiver. -/
lemma ComesBy.receiver?_of_binds (hw : h.session.machine.Founded h.chronicle w) {e : Expr}
    (hcomes : h.ComesBy host n (.evaluate e) m) {bound method : Closure} {m₀ m₁ : Machine}
    {i : InstanceId} (hok : evaluate host n e m = .ok (.closure bound) m₁)
    (hbinds : BindsMethod m₀ method i bound m₁) : (w bound.frame).receiver? = some i := by
  obtain ⟨C, w₁, hs⟩ := hcomes.sustains
  obtain ⟨w₂, hsettled, -⟩ := hs.settled_ok hok
  exact hsettled.receiver?_of_local hw hbinds.opens.lt hbinds.receiver

/-- For every session there is an instance, or none, for each frame, such that:

* wherever the session passes, a frame with an instance holds `dies` as that instance and nothing
  else;
* every function marked as initializer that a program can get hold of is closed in such a frame;
* every call of a marked function that gives a value, however its body has ended, gives the instance
  of its frame;
* calling a class with an initializer calls it as a marked function bound to the new instance, and
  gives what this call gives;
* a method taken from an instance, or by `super`, is marked if and only if it is named as
  initializers are, and is closed in a frame with its receiver. -/
theorem initializers_yield_receivers (h : History) :
    ∃ receiver : FrameId → Option InstanceId,
      (∀ m, h.Passes m → ∀ f < m.store.frames.size, ∀ i, receiver f = some i →
        m.store.Receives f i) ∧
      (∀ c m, h.Obtains c m → c.isInitializer = true →
        ∃ i, receiver c.frame = some i ∧ m.store.Receives c.frame i) ∧
      (∀ host n c args m v m₁, h.ComesBy host n (.call (.closure c) args) m →
        c.isInitializer = true → call host n (.closure c) args m = .ok v m₁ →
        ∃ i, receiver c.frame = some i ∧ v = .ofInstance i) ∧
      (∀ host n c args m init v m₁, h.ComesBy host (n + 1) (.call (.ofClass c) args) m →
        c.initializer? = some init → call host (n + 1) (.ofClass c) args m = .ok v m₁ →
        ∃ bound m₂, h.ComesBy host n (.call (.closure bound) args) m₂ ∧
          bound.decl = init.decl ∧ bound.isInitializer = true ∧
          receiver bound.frame = some m.store.instances.size ∧
          v = .ofInstance m.store.instances.size ∧
          call host n (.closure bound) args m₂ = .ok v m₁) ∧
      (∀ host n id object name m i m₁ method,
        h.ComesBy host (n + 1) (.evaluate (.get id object name)) m →
        evaluate host n object m = .ok (.ofInstance i) m₁ →
        m₁.store.field? i name.lexeme = none → m₁.store.method? i name.lexeme = some method →
        ∃ bound m₂, evaluate host (n + 1) (.get id object name) m = .ok (.closure bound) m₂ ∧
          bound.decl = method.decl ∧
          bound.isInitializer = decide (name.lexeme = initializerName) ∧
          receiver bound.frame = some i) ∧
      ∀ host n id keyword name m parent i m₁ method,
        h.ComesBy host (n + 1) (.evaluate (.super id keyword name)) m →
        Eval.superAndReceiver id keyword m = .ok (parent, i) m₁ →
        parent.findMethod? name.lexeme = some method →
        ∃ bound m₂, evaluate host (n + 1) (.super id keyword name) m = .ok (.closure bound) m₂ ∧
          bound.decl = method.decl ∧
          bound.isInitializer = decide (name.lexeme = initializerName) ∧
          receiver bound.frame = some i := by
  obtain ⟨w, hw⟩ := h.founded
  refine ⟨fun f => (w f).receiver?, ?_, ?_, ?_, ?_, ?_, ?_⟩
  · intro m hm f hlt i hi
    obtain ⟨C, w₁, hs⟩ := hm.settled
    exact hs.founded.receives hlt ((hs.receiver?_eq hw hlt).symm.trans hi)
  · intro c m hc hinit
    obtain ⟨C, w₁, hs, hfounded⟩ := hc.founded
    obtain ⟨hlt, k, method, i, hrole⟩ := hfounded.receiver hinit
    have hi : (w₁ c.frame).receiver? = some i := congrArg Role.receiver? hrole
    exact ⟨i, (hs.receiver?_eq hw hlt).trans hi, hs.founded.receives hlt hi⟩
  · exact fun host n c args m v m₁ hcomes hinit hcall => hcomes.call_initializer hw hinit hcall
  · exact fun host n c args m init v m₁ hcomes hinit hcall => hcomes.call_class hw hinit hcall
  · intro host n id object name m i m₁ method hcomes hobject hfield hmethod
    obtain ⟨bound, m₂, hbinds, hok⟩ :=
      opensFrames_get host n m id object name i m₁ method hobject hfield hmethod
    refine ⟨bound, m₂, hok, hbinds.decl, ?_, hcomes.receiver?_of_binds hw hok hbinds⟩
    obtain ⟨C, w₁, hs⟩ := (hcomes.enter .object).sustains
    obtain ⟨w₂, hsettled, -⟩ := hs.settled_ok hobject
    obtain ⟨k, hk, hown⟩ := hsettled.founded.method? hmethod
    rw [hbinds.isInitializer, hk.isInitializer hown]
  · intro host n id keyword name m parent i m₁ method hcomes hsuper hmethod
    obtain ⟨bound, m₂, hbinds, hok⟩ :=
      opensFrames_super host n m id keyword name parent i m₁ method hsuper hmethod
    refine ⟨bound, m₂, hok, hbinds.decl, ?_, hcomes.receiver?_of_binds hw hok hbinds⟩
    obtain ⟨C, w₁, hs⟩ := hcomes.sustains
    obtain ⟨w₂, hleaves, hparent, -⟩ := (hs.machine.superAndReceiver id keyword).of_ok hsuper
    obtain ⟨k, hk, hown⟩ := hparent.findMethod? hmethod
    rw [hbinds.isInitializer, hk.isInitializer hown]

private def retryingSource : String :=
  "klasse A \x7b init() \x7b während (wahr) \x7b zurückgeben; \x7d \x7d \x7d var f = A().init; f();"

private def identifier (name : String) : Token :=
  ⟨.identifier, name, 1⟩

private def closing : Token :=
  ⟨.symbol .rightParen, ")", 1⟩

private def retryingClass : Stmt :=
  .classDecl (identifier "A") none [⟨identifier "init", [], [.loop (.literal 0 (.bool true))
    (.block [.ret ⟨.keyword .zurueckgeben, "zurückgeben", 1⟩ none])]⟩]

private def retryingVariable : Stmt :=
  .varDecl (identifier "f")
    (some (.get 3 (.call 2 (.var 1 (identifier "A")) closing []) (identifier "init")))

private def retryingCall : Expr :=
  .call 5 (.var 4 (identifier "f")) closing []

private def retryingProgram : List Stmt :=
  [retryingClass, retryingVariable, .expression retryingCall]

private def plainHost : Host :=
  ⟨fun _ => 0, fun _ => true⟩

/-- An initializer in a variable, which leaves a loop by a return, gives the instance that it was
taken from. -/
theorem initializers_yield_receivers_retried :
    ∃ n c m m₁ i, (History.start.run plainHost 30 retryingSource).ComesBy plainHost n
        (.call (.closure c) []) m ∧
      c.isInitializer = true ∧ m.store.Receives c.frame i ∧
      call plainHost n (.closure c) [] m = .ok (.ofInstance i) m₁ := by
  have hcompile : compile retryingSource 0 = (.ok (retryingProgram, {}), 6) :=
    compile_of_ok (by decide +kernel) (by decide +kernel) rfl
  let m₀ := Session.start.ready {}
  let m₁ := Machine.after (execute plainHost 29 retryingClass m₀)
  let m₂ := Machine.after (execute plainHost 28 retryingVariable m₁)
  have hfirst : execute plainHost 29 retryingClass m₀ = .ok .normal m₁ :=
    eq_of_endsNormally (by decide +kernel)
  have hsecond : execute plainHost 28 retryingVariable m₁ = .ok .normal m₂ :=
    eq_of_endsNormally (by decide +kernel)
  have hthird : endsNormally (execute plainHost 27 (.expression retryingCall) m₂) = true := by
    decide +kernel
  have hfunction : (functionOf? (evaluate plainHost 25 (.var 4 (identifier "f")) m₂)).map
      (fun c => (c.isInitializer, c.arity)) = some (true, 0) := by decide +kernel
  obtain ⟨c, hc, hmarks⟩ := Option.map_eq_some_iff.mp hfunction
  obtain ⟨hmarked, harity⟩ := Prod.mk.inj hmarks
  have hcallee := eq_of_functionOf? hc
  have heval : evaluate plainHost 26 retryingCall m₂ = call plainHost 25 (.closure c) []
      (Machine.after (evaluate plainHost 25 (.var 4 (identifier "f")) m₂)) := by
    refine EStateM.bind_eq_of_ok hcallee (EStateM.bind_eq_of_ok rfl ?_)
    simp [Value.callable?, Callable.arity, harity]
  have hreach : (History.start.run plainHost 30 retryingSource).ComesBy plainHost 25
      (.call (.closure c) []) _ :=
    .now hcompile (.step (.step (.step (.step (.step .refl (.statements hfirst))
      (.statements hsecond)) .statement) .expression) (.call hcallee rfl rfl harity.symm))
  obtain ⟨receiver, -, hobtained, hcalled, -⟩ :=
    initializers_yield_receivers (History.start.run plainHost 30 retryingSource)
  obtain ⟨i, hi, hreceives⟩ := hobtained c _ (.called hreach) hmarked
  cases hcall : call plainHost 25 (.closure c) []
      (Machine.after (evaluate plainHost 25 (.var 4 (identifier "f")) m₂)) with
  | ok v m₃ =>
    obtain ⟨j, hj, rfl⟩ := hcalled _ _ _ _ _ _ _ hreach hmarked hcall
    cases hi.symm.trans hj
    exact ⟨25, c, _, m₃, i, hreach, hmarked, hreceives, hcall⟩
  | error stop m₃ =>
    have hfails : execute plainHost 27 (.expression retryingCall) m₂ = .error stop m₃ :=
      EStateM.bind_of_error (heval.trans hcall) _
    rw [hfails] at hthird
    cases hthird

end Session.History

end GermanLox
