import GermanLox.Proofs.Run.Reach
import GermanLox.Proofs.Sequencing

/-!
# What references find

A reference with a distance finds its name that far out, in a frame of its own scope; one without
finds it among the globals or nowhere. So a run that fails for want of a variable has come by a
reference without a distance.
-/

namespace GermanLox

/-- The number and the token of an expression that stands for a variable. -/
def Expr.reference? : Expr → Option (ExprId × Token)
  | .var i name => some (i, name)
  | .assign i name _ => some (i, name)
  | .this i keyword => some (i, keyword)
  | .super i keyword _ => some (i, keyword)
  | _ => none

/-- The frame a number of links outward from the running code, if it is not the outermost. -/
structure Outward (m : Machine) (distance : Nat) (frame : FrameId) : Prop where
  ancestor : m.store.ancestor? m.current distance = some frame
  lt : frame < m.store.frames.size
  ne : frame ≠ Store.globals

/-- What a reference finds in the frame that is its distance outward: its name, and for `super` a
class, with an instance as receiver one link inside. An assignment may come before its variable if
it is one of the given. -/
def Expr.FindsAt (early : ExprId → Prop) (m : Machine) (distance : Nat) (frame : FrameId) :
    Expr → Prop
  | .var _ name => (m.store.local? frame name.lexeme).isSome
  | .assign i name _ => (m.store.local? frame name.lexeme).isSome ∨ early i
  | .this _ keyword => ∃ i, m.store.local? frame keyword.lexeme = some (.ofInstance i)
  | .super _ keyword _ =>
    (∃ c, m.store.local? frame keyword.lexeme = some (.ofClass c)) ∧
      ∃ d inner i, distance = d + 1 ∧ m.store.ancestor? m.current d = some inner ∧
        m.store.enclosing? inner = some frame ∧
        m.store.local? inner thisName = some (.ofInstance i)
  | _ => True

namespace Store

lemma ancestor?_succ (s : Store) (f : FrameId) (d : Nat) :
    s.ancestor? f (d + 1) = (s.ancestor? f d).bind s.enclosing? := by
  induction d generalizing f with
  | zero =>
    simp only [ancestor?, Option.bind_some]
    cases s.enclosing? f <;> rfl
  | succ d ih =>
    rw [ancestor?]
    cases h : s.enclosing? f with
    | none => simp [ancestor?, h]
    | some outer =>
      rw [Option.bind_some, ih]
      simp [ancestor?, h]

end Store

section Finding

variable {E : Setting} {w : Labels} {m : Machine} {Γ : Layers}

/-- Frames of local scopes are not the global one. -/
lemma Aligned.outward {d : Nat} {layer : Layer} (h : Agree E w m m)
    (halign : Aligned w m.store m.current Γ) (hlayer : Γ[d]? = some layer) :
    ∃ g, Outward m d g ∧ w g = layer.label ∧
      ∀ n, layer.names n = some true → (m.store.local? g n).isSome := by
  obtain ⟨g, hg, hlt, hlabel, hbound, o, ho⟩ := halign.frame hlayer
  refine ⟨g, ⟨hg, hlt, ?_⟩, hlabel, hbound⟩
  rintro rfl
  rw [h.store.outermost] at ho
  cases ho

/-- A reference whose scopes line up, if it has a distance. -/
lemma Refers.finds {σ : Setting} (hfits : σ.Fits E) {early : Prop} {i : ExprId} {n n' : String}
    (href : Refers σ Γ early i i n n') (h : Agree E w m m)
    (halign : Aligned w m.store m.current Γ) {d : Nat} (hd : m.distances[i]? = some d) :
    ∃ frame, Outward m d frame ∧ ((m.store.local? frame n).isSome ∨ early) := by
  cases href with
  | global hentry =>
    rw [h.left _ _ _ (hfits.entry _ _ _ hentry)] at hd
    cases hd
  | bound hentry hlayer hready =>
    obtain rfl := Option.some.inj ((h.left _ _ _ (hfits.entry _ _ _ hentry)).symm.trans hd)
    obtain ⟨g, hg, -, hbound⟩ := halign.outward h hlayer
    refine ⟨g, hg, ?_⟩
    rcases hready with hready | ⟨-, hearly⟩
    · exact .inl (hbound n hready)
    · exact .inr hearly

/-- With a distance, a reference finds what it stands for. -/
theorem Task.Sound.finds {e : Expr} (hsound : (Task.evaluate e).Sound E m) {i : ExprId} {t : Token}
    (he : e.reference? = some (i, t)) {d : Nat} (hd : m.distances[i]? = some d) :
    ∃ frame, Outward m d frame ∧ e.FindsAt E.own m d frame := by
  obtain ⟨w, h, σ, Γ, hfits, hlike, halign⟩ := hsound
  cases hlike with
  | var _ href =>
    cases he
    obtain ⟨frame, hframe, hbound⟩ := href.finds hfits h halign hd
    exact ⟨frame, hframe, hbound.resolve_right id⟩
  | assign _ href =>
    cases he
    obtain ⟨frame, hframe, hbound⟩ := href.finds hfits h halign hd
    exact ⟨frame, hframe, hbound.imp_right (hfits.own _)⟩
  | this ht _ hentry hlayer =>
    cases he
    obtain rfl := Option.some.inj ((h.left _ _ _ (hfits.entry _ _ _ hentry)).symm.trans hd)
    obtain ⟨g, hg, hlabel, hbound⟩ := halign.outward h hlayer
    obtain ⟨v, hv⟩ := Option.isSome_iff_exists.mp
      (hbound thisName (by simp [Layer.receiver, Layer.enter]))
    obtain ⟨j, rfl⟩ := h.store.receiver g v hlabel hv
    exact ⟨g, hg, j, by rw [ht]; exact hv⟩
  | super ht hentry hlayer hinner =>
    cases he
    obtain rfl := Option.some.inj ((h.left _ _ _ (hfits.entry _ _ _ hentry)).symm.trans hd)
    obtain ⟨g, hg, -⟩ := halign.outward h hlayer
    obtain ⟨g', f, parent, j, hg', hf, -, -, hparent, hreceiver⟩ :=
      h.superclass_and_receiver halign hlayer hinner
    obtain rfl : g' = g := Option.some.inj (hg'.symm.trans hg.ancestor)
    refine ⟨g', hg, ⟨parent, by rw [ht]; exact hparent⟩, _, f, j, rfl, hf, ?_, hreceiver⟩
    rwa [Store.ancestor?_succ, hf] at hg'
  | _ => cases he

/-- `dies` and `super` have a distance. -/
lemma Task.Sound.has_distance {e : Expr} (hsound : (Task.evaluate e).Sound E m) {i : ExprId}
    {t : Token} (he : e.reference? = some (i, t)) (hd : m.distances[i]? = none) :
    (∃ name, e = .var i name) ∨ ∃ name value, e = .assign i name value := by
  obtain ⟨w, h, σ, Γ, hfits, hlike, halign⟩ := hsound
  cases hlike with
  | var => cases he; exact .inl ⟨_, rfl⟩
  | assign => cases he; exact .inr ⟨_, _, rfl⟩
  | this _ _ hentry =>
    cases he
    rw [h.left _ _ _ (hfits.entry _ _ _ hentry)] at hd
    cases hd
  | super _ hentry =>
    cases he
    rw [h.left _ _ _ (hfits.entry _ _ _ hentry)] at hd
    cases hd
  | _ => cases he

/-- When the value of an assignment is there, the scopes still line up, and the table says the same
of it. -/
lemma Task.Sound.after_value {host : Host} {fuel : Nat} {i : ExprId} {name : Token} {value : Expr}
    (hsound : (Task.evaluate (.assign i name value)).Sound E m) {v : Value} {m₁ : Machine}
    (hv : GermanLox.evaluate host fuel value m = .ok v m₁) :
    (Task.evaluate (.assign i name value)).Sound E m₁ ∧ m₁.distances[i]? = m.distances[i]? := by
  obtain ⟨w, h, σ, Γ, hfits, hlike, halign⟩ := hsound
  cases hlike with
  | assign ht href hthis hsuper hvalue =>
    obtain ⟨w₁, h₁, halign₁, -⟩ := Enters.after_evaluate hfits hvalue h halign hv
    refine ⟨⟨w₁, h₁, σ, Γ, hfits, .assign ht href hthis hsuper hvalue, halign₁⟩, ?_⟩
    cases href with
    | global hentry =>
      have hentry := hfits.entry _ _ _ hentry
      rw [h.left _ _ _ hentry, h₁.left _ _ _ hentry]
    | bound hentry =>
      have hentry := hfits.entry _ _ _ hentry
      rw [h.left _ _ _ hentry, h₁.left _ _ _ hentry]

end Finding

/-- All faults that an action can raise on a machine. -/
def Raises {α : Type} (P : Fault → Prop) (x : Eval α) (m : Machine) : Prop :=
  ∀ f m₁, x m = .error (.fault f) m₁ → P f

namespace Raises

variable {α β : Type} {P Q : Fault → Prop} {m : Machine}

lemma of_ok {x : Eval α} {a : α} {m₁ : Machine} (h : x m = .ok a m₁) : Raises P x m := by
  intro f m₂ hf
  rw [h] at hf
  cases hf

lemma mono {x : Eval α} (h : Raises P x m) (himp : ∀ f, P f → Q f) : Raises Q x m :=
  fun f m₁ hf => himp f (h f m₁ hf)

lemma outOfFuel : Raises P (Eval.outOfFuel : Eval α) m :=
  fun _ _ h => nomatch h

lemma fail {t : Token} {cause : FaultCause} (h : P ⟨t, cause⟩) :
    Raises P (Eval.fail t cause : Eval α) m := by
  rintro f m₁ ⟨⟩
  exact h

lemma bind {x : Eval α} {f : α → Eval β} (hx : Raises P x m)
    (hf : ∀ a m₁, x m = .ok a m₁ → Raises P (f a) m₁) : Raises P (x >>= f) m := by
  intro g m₂ hg
  change EStateM.bind x f m = _ at hg
  unfold EStateM.bind at hg
  cases hxm : x m with
  | ok a m₁ =>
    rw [hxm] at hg
    exact hf a m₁ hxm g m₂ hg
  | error stop m₁ =>
    rw [hxm] at hg
    cases hg
    exact hx g _ hxm

lemma pure {a : α} : Raises P (Pure.pure a : Eval α) m :=
  of_ok rfl

lemma within {x : Eval α} {frame : FrameId} (h : Raises P x { m with current := frame }) :
    Raises P (Eval.within frame x) m := by
  intro f m₁ hf
  unfold Eval.within at hf
  cases hx : x { m with current := frame } with
  | ok a after =>
    simp only [hx] at hf
    cases hf
  | error stop after =>
    simp only [hx] at hf
    cases hf
    exact h f _ hx

/-- An action after one that always ends. -/
lemma after {x : Eval α} {f : α → Eval β} {a : α} {m₁ : Machine} (hx : x m = .ok a m₁)
    (hf : Raises P (f a) m₁) : Raises P (x >>= f) m := by
  refine (of_ok hx).bind fun b m₂ hb => ?_
  cases hx.symm.trans hb
  exact hf

end Raises

/-- Actions that end, however they do, with a variable still there. -/
def Keeps {α : Type} (frame : FrameId) (name : String) (x : Eval α) : Prop :=
  ∀ m : Machine, (m.store.local? frame name).isSome →
    ∃ a m₁, x m = .ok a m₁ ∧ (m₁.store.local? frame name).isSome

namespace Keeps

variable {α β : Type} {frame : FrameId} {name : String}

lemma pure (a : α) : Keeps frame name (Pure.pure a : Eval α) :=
  fun m h => ⟨a, m, rfl, h⟩

lemma bind {x : Eval α} {f : α → Eval β} (hx : Keeps frame name x)
    (hf : ∀ a, Keeps frame name (f a)) : Keeps frame name (x >>= f) := by
  intro m h
  obtain ⟨a, m₁, ha, h₁⟩ := hx m h
  obtain ⟨b, m₂, hb, h₂⟩ := hf a m₁ h₁
  exact ⟨b, m₂, (EStateM.bind_of_ok ha f).trans hb, h₂⟩

lemma currentFrame : Keeps frame name Eval.currentFrame :=
  fun m h => ⟨_, m, rfl, h⟩

lemma freshIdentity : Keeps frame name Eval.freshIdentity :=
  fun _ h => ⟨_, _, rfl, h⟩

lemma newFrame (outer : FrameId) : Keeps frame name (Eval.newFrame outer) :=
  fun m h => ⟨_, _, rfl, by
    change ((m.store.newFrame (some outer)).2.local? frame name).isSome
    rwa [Store.local?_newFrame]⟩

lemma define (f : FrameId) (n : String) (v : Value) : Keeps frame name (Eval.define f n v) :=
  fun _ h => ⟨_, _, rfl, Store.isSome_local?_define h f n v⟩

lemma methodFrame (parent : Option Class) : Keeps frame name (GermanLox.methodFrame parent) := by
  refine currentFrame.bind fun current => ?_
  cases parent with
  | none => exact .pure _
  | some c => exact (newFrame current).bind fun inner => (define _ _ _).bind fun _ => .pure _

lemma closeMethods (f : FrameId) (methods : Std.TreeMap String Closure)
    (decls : List FunctionDecl) : Keeps frame name (GermanLox.closeMethods f methods decls) := by
  induction decls generalizing methods with
  | nil => exact .pure _
  | cons decl decls ih => exact (freshIdentity.bind fun _ => .pure _).bind fun _ => ih _

lemma assignFrom (frame : FrameId) (t : Token) (v : Value) :
    Keeps frame t.lexeme (Eval.assignFrom frame t v) := by
  intro m h
  rw [Eval.assignFrom_of_bound h]
  exact define frame t.lexeme v m h

end Keeps

/-- A class can always be declared: its name is there before its methods. -/
lemma declareClass_ok {m : Machine} (hlt : m.current < m.store.frames.size) (name : Token)
    (parent : Option Class) (methods : List FunctionDecl) :
    ∃ m₁, declareClass name parent methods m = .ok () m₁ := by
  have hbound : ((m.store.define m.current name.lexeme .nil).local? m.current
      name.lexeme).isSome := by
    rw [Store.local?_define _ _ _ _ _ _ hlt]
    simp
  have hrest := (Keeps.methodFrame parent).bind fun inner =>
    (Keeps.closeMethods inner {} methods).bind fun methods => Keeps.freshIdentity.bind fun k =>
      Keeps.assignFrom m.current name
        (.ofClass ⟨⟨k, name.lexeme, methods⟩, Class.lineageOf parent⟩)
  obtain ⟨_, m₁, hok, -⟩ :=
    hrest { m with store := m.store.define m.current name.lexeme .nil } hbound
  exact ⟨m₁, hok⟩

namespace Raises

variable {m : Machine}

lemma unary (op : UnaryOp) (t : Token) (v : Value) :
    Raises (·.cause ≠ .undefinedVariable) (op.apply t v) m := by
  cases op with
  | not => exact .pure
  | negate =>
    cases v with
    | number x => exact .pure
    | _ => exact .fail (by simp)

lemma arithmetic (f : Float → Float → Value) (t : Token) (v u : Value) :
    Raises (·.cause ≠ .undefinedVariable) (GermanLox.arithmetic f t v u) m := by
  unfold GermanLox.arithmetic
  split
  · exact .pure
  · exact .fail (by simp)

lemma binary (op : BinaryOp) (t : Token) (v u : Value) :
    Raises (·.cause ≠ .undefinedVariable) (op.apply t v u) m := by
  cases op with
  | equal => exact .pure
  | notEqual => exact .pure
  | add =>
    change Raises _ (addition t v u) m
    unfold addition
    split
    · exact .pure
    · exact .pure
    · exact .fail (by simp)
  | _ => exact arithmetic _ t v u

lemma property (i : InstanceId) (t : Token) :
    Raises (·.cause ≠ .undefinedVariable) (Eval.property i t) m := by
  refine .after rfl ?_
  split
  · exact .pure
  · refine .after rfl ?_
    split
    · exact .of_ok rfl
    · exact .fail (by simp)

lemma defineAll {P : Fault → Prop} (frame : FrameId) (bs : List (String × Value)) :
    Raises P (Eval.defineAll frame bs) m := by
  induction bs generalizing m with
  | nil => exact .pure
  | cons b bs ih => exact .after rfl ih

lemma callResult {P : Fault → Prop} (c : Closure) (x : Completion) :
    Raises P (GermanLox.callResult c x) m := by
  unfold GermanLox.callResult
  split
  · exact .of_ok rfl
  · cases x <;> exact .pure

end Raises

/-- A call raises no faults but these. -/
def CallRaises (P : Fault → Prop) (host : Host) (fuel : Nat) (m : Machine) : Task → Prop
  | .evaluate e => Raises P (evaluate host fuel e) m
  | .evaluateAll es => Raises P (evaluateAll host fuel es) m
  | .evaluateOptional e => Raises P (evaluateOptional host fuel e) m
  | .evaluateSuperclass name e => Raises P (evaluateSuperclass host fuel name e) m
  | .call f args => Raises P (call host fuel f args) m
  | .execute s => Raises P (execute host fuel s) m
  | .executeAll ss => Raises P (executeAll host fuel ss) m
  | .executeLoop e s => Raises P (executeLoop host fuel e s) m

lemma CallRaises.mono {P Q : Fault → Prop} {host : Host} {fuel : Nat} {m : Machine} {t : Task}
    (h : CallRaises P host fuel m t) (himp : ∀ f, P f → Q f) : CallRaises Q host fuel m t := by
  cases t <;> exact Raises.mono h himp

/-- A reference without a distance that raises a fault, while the calls it makes raise none. -/
def Expr.Misses (host : Host) (fuel : Nat) (m : Machine) (f : Fault) (e : Expr) : Prop :=
  (∃ i, e.reference? = some (i, f.token) ∧ m.distances[i]? = none) ∧
    (∃ m₁, GermanLox.evaluate host (fuel + 1) e m = .error (.fault f) m₁) ∧
    ∀ t m₁, Enters host fuel (.evaluate e) m t m₁ → CallRaises (fun _ => False) host fuel m₁ t

/-- If a fault is for want of a variable, the call has come by a reference that raises it for want
of a distance. -/
def Task.Unbound (host : Host) (fuel : Nat) (t : Task) (m : Machine) (f : Fault) : Prop :=
  f.cause = .undefinedVariable →
    ∃ n e m₁, Reaches host fuel t m (n + 1) (.evaluate e) m₁ ∧ e.Misses host n m₁ f

section Origin

variable {E : Setting} {host : Host} {fuel n : Nat} {t t₁ t₂ : Task} {m m₁ m₂ : Machine}

lemma Reaches.head (hfirst : Enters host fuel t m t₁ m₁) (h : Reaches host fuel t₁ m₁ n t₂ m₂) :
    Reaches host (fuel + 1) t m n t₂ m₂ := by
  induction h with
  | refl => exact .step .refl hfirst
  | step _ hnext ih => exact .step ih hnext

lemma Task.Unbound.enter {f : Fault} (hfirst : Enters host fuel t m t₁ m₁)
    (h : t₁.Unbound host fuel m₁ f) : t.Unbound host (fuel + 1) m f := by
  intro hf
  obtain ⟨n, e, m₂, hreach, he⟩ := h hf
  exact ⟨n, e, m₂, hreach.head hfirst, he⟩

lemma Task.Unbound.of_ne {f : Fault} (h : f.cause ≠ .undefinedVariable) :
    t.Unbound host fuel m f :=
  fun hf => absurd hf h

lemma Task.Unbound.of_misses {e : Expr} {f : Fault} (h : e.Misses host fuel m f) :
    (Task.evaluate e).Unbound host (fuel + 1) m f :=
  fun _ => ⟨fuel, e, m, .refl, h⟩

/-- A lookup that finds what it has a distance for. -/
lemma raises_lookUp {e : Expr} {i : ExprId} {name : Token} (he : e.reference? = some (i, name))
    (heval : evaluate host (fuel + 1) e = Eval.lookUp i name)
    (hleaf : ∀ t m₁, ¬ Enters host fuel (.evaluate e) m t m₁)
    (hbound : ∀ d, m.distances[i]? = some d →
      (m.store.getAt? m.current d name.lexeme).isSome) :
    Raises ((Task.evaluate e).Unbound host (fuel + 1) m) (Eval.lookUp i name) m := by
  intro f m₁ hf
  have hraised := hf
  cases hi : m.distances[i]? with
  | none =>
    rw [Eval.lookUp_of_none hi] at hf
    cases hv : m.store.get? Store.globals name.lexeme with
    | none =>
      rw [hv] at hf
      cases hf
      exact .of_misses ⟨⟨i, he, hi⟩, ⟨_, heval ▸ hraised⟩, fun t m₁ h => (hleaf t m₁ h).elim⟩
    | some v =>
      rw [hv] at hf
      cases hf
  | some d =>
    obtain ⟨v, hv⟩ := Option.isSome_iff_exists.mp (hbound d hi)
    rw [Eval.lookUp_of_some hi, hv] at hf
    cases hf

lemma raises_var {i : ExprId} {name : Token} (hsound : (Task.evaluate (.var i name)).Sound E m) :
    Raises ((Task.evaluate (.var i name)).Unbound host (fuel + 1) m) (Eval.lookUp i name) m := by
  refine raises_lookUp rfl rfl (fun _ _ h => nomatch h) fun d hd => ?_
  obtain ⟨frame, hframe, hbound⟩ := hsound.finds rfl hd
  rw [Store.getAt?, hframe.ancestor]
  exact hbound

lemma raises_this {i : ExprId} {keyword : Token}
    (hsound : (Task.evaluate (.this i keyword)).Sound E m) :
    Raises ((Task.evaluate (.this i keyword)).Unbound host (fuel + 1) m)
      (Eval.lookUp i keyword) m := by
  refine raises_lookUp rfl rfl (fun _ _ h => nomatch h) fun d hd => ?_
  obtain ⟨frame, hframe, j, hj⟩ := hsound.finds rfl hd
  rw [Store.getAt?, hframe.ancestor, Option.bind_some, hj]
  rfl

lemma raises_assign {i : ExprId} {name : Token} {value : Expr} {v : Value}
    (hsound : (Task.evaluate (.assign i name value)).Sound E m)
    (hv : evaluate host fuel value m = .ok v m₁) :
    Raises ((Task.evaluate (.assign i name value)).Unbound host (fuel + 1) m)
      (Eval.assign i name v) m₁ := by
  obtain ⟨hsound₁, htable⟩ := hsound.after_value hv
  intro f m₂ hf
  have hraised : evaluate host (fuel + 1) (.assign i name value) m = .error (.fault f) m₂ := by
    simp only [evaluate, Bind.bind, EStateM.bind, hv, hf]
  cases hi : m₁.distances[i]? with
  | none =>
    rw [Eval.assign_of_none hi, Eval.assignFrom_eq] at hf
    cases htarget : m₁.store.frameOf? Store.globals name.lexeme with
    | none =>
      rw [htarget] at hf
      cases hf
      refine .of_misses ⟨⟨i, rfl, htable.symm.trans hi⟩, ⟨_, hraised⟩, ?_⟩
      rintro _ _ ⟨⟩
      exact Raises.of_ok hv
    | some frame =>
      rw [htarget] at hf
      cases hf
  | some d =>
    obtain ⟨frame, hframe, -⟩ := hsound₁.finds rfl hi
    rw [Eval.assign_of_some hi hframe.ancestor] at hf
    cases hf

lemma raises_super {i : ExprId} {keyword method : Token}
    (hsound : (Task.evaluate (.super i keyword method)).Sound E m) :
    Raises (·.cause ≠ .undefinedVariable) (Eval.superMethod i keyword method) m := by
  obtain ⟨w, h, σ, Γ, hfits, hlike, halign⟩ := hsound
  cases hlike with
  | super _ hentry hlayer hinner =>
    obtain ⟨g, f, parent, j, hg, hf, -, -, hparent, hreceiver⟩ :=
      h.superclass_and_receiver halign hlayer hinner
    intro fault m₁ hfault
    rw [Eval.superMethod_of_bound (h.left _ _ _ (hfits.entry _ _ _ hentry))
      (by rw [Store.getAt?, hg]; exact hparent) (by rw [Store.getAt?, hf]; exact hreceiver)]
      at hfault
    split at hfault
    · cases hfault
    · cases hfault
      simp

/-- When the superclass of a class is there, the current frame is one of the store. -/
lemma Task.Sound.current_lt {name : Token} {e : Option Expr} {methods : List FunctionDecl}
    (hsound : (Task.execute (.classDecl name e methods)).Sound E m) {parent : Option Class}
    (hparent : GermanLox.evaluateSuperclass host fuel name e m = .ok parent m₁) :
    m₁.current < m₁.store.frames.size := by
  obtain ⟨w, h, σ, inside, Γ, Γ₁, hfits, hlike, halign⟩ := hsound
  obtain ⟨hname, hsuperclass⟩ : σ.Spelled name name ∧ OptionalLike σ Γ e e := by
    cases hlike with
    | classDecl ht => exact ⟨ht, .none⟩
    | subclassDecl ht _ he => exact ⟨ht, .some he⟩
  obtain ⟨w₁, hgrow, hcurrent, h₁, -⟩ := ((runsAlike E host fuel).evaluateSuperclass hfits hname
    hsuperclass h halign).of_ok hparent
  exact (halign.after hgrow hcurrent).lt h₁.store

/-- One level of the evaluator, given that the calls it makes raise what they may. -/
lemma evaluate_raises (e : Expr) (hsound : (Task.evaluate e).Sound E m)
    (sub : ∀ {t₁ m₁}, Enters host fuel (.evaluate e) m t₁ m₁ →
      CallRaises ((Task.evaluate e).Unbound host (fuel + 1) m) host fuel m₁ t₁) :
    Raises ((Task.evaluate e).Unbound host (fuel + 1) m) (evaluate host (fuel + 1) e) m := by
  cases e with
  | literal i value => exact .pure
  | grouping i e => exact sub .grouping
  | unary i op token e =>
    exact .bind (sub .operand) fun v m₁ _ => (Raises.unary op token v).mono fun _ => .of_ne
  | binary i op token left right =>
    refine .bind (sub .binaryLeft) fun v m₁ hv => ?_
    refine .bind (sub (.binaryRight hv)) fun u m₂ _ => ?_
    exact (Raises.binary op token v u).mono fun _ => .of_ne
  | logical i op token left right =>
    refine .bind (sub .logicalLeft) fun v m₁ hv => ?_
    split
    · exact .pure
    · rename_i hopen
      exact sub (.logicalRight hv (by simpa using hopen))
  | var i name => exact raises_var hsound
  | assign i name value =>
    refine .bind (sub .assigned) fun v m₁ hv => ?_
    exact .bind (raises_assign hsound hv) fun _ _ _ => .pure
  | call i callee paren es =>
    refine .bind (sub .callee) fun v m₁ hv => ?_
    refine .bind (sub (.arguments hv)) fun args m₂ hargs => ?_
    split
    · exact .fail (.of_ne (by simp))
    · rename_i f hf
      split
      · exact sub (.call hv hargs hf ‹_›)
      · exact .fail (.of_ne (by simp))
  | get i e name =>
    refine .bind (sub .object) fun v m₁ _ => ?_
    split
    · exact (Raises.property _ name).mono fun _ => .of_ne
    · exact .fail (.of_ne (by simp))
  | set i e name value =>
    refine .bind (sub .target) fun v m₁ hv => ?_
    split
    · exact .bind (sub (.field hv)) fun u m₂ _ => .of_ok rfl
    · exact .fail (.of_ne (by simp))
  | this i keyword => exact raises_this hsound
  | super i keyword method => exact (raises_super hsound).mono fun _ => .of_ne

lemma call_raises (f : Callable) (args : List Value)
    (sub : ∀ {t₁ m₁}, Enters host fuel (.call f args) m t₁ m₁ →
      CallRaises ((Task.call f args).Unbound host (fuel + 1) m) host fuel m₁ t₁) :
    Raises ((Task.call f args).Unbound host (fuel + 1) m) (call host (fuel + 1) f args) m := by
  cases f with
  | builtin b =>
    cases b
    exact .of_ok rfl
  | closure c =>
    refine .bind (.of_ok rfl) fun frame m₁ hframe => ?_
    refine .bind (Raises.defineAll _ _) fun _ m₂ hparams => ?_
    refine .bind (.within (sub (.body hframe hparams))) fun x m₃ _ => ?_
    exact Raises.callResult c x
  | ofClass c =>
    refine .bind (.of_ok rfl) fun i m₁ hinstance => ?_
    split
    · exact .pure
    · refine .bind (.of_ok rfl) fun bound m₂ hbound => ?_
      exact .bind (sub (.initializer hinstance ‹_› hbound)) fun _ _ _ => .pure

lemma execute_raises (s : Stmt) (hsound : (Task.execute s).Sound E m)
    (sub : ∀ {t₁ m₁}, Enters host fuel (.execute s) m t₁ m₁ →
      CallRaises ((Task.execute s).Unbound host (fuel + 1) m) host fuel m₁ t₁) :
    Raises ((Task.execute s).Unbound host (fuel + 1) m) (execute host (fuel + 1) s) m := by
  cases s with
  | expression e => exact .bind (sub .expression) fun _ _ _ => .pure
  | print e => exact .bind (sub .print) fun _ _ _ => .of_ok rfl
  | varDecl name e => exact .bind (sub .varDecl) fun _ _ _ => .of_ok rfl
  | block ss =>
    refine .after rfl ?_
    refine .bind (.of_ok rfl) fun frame m₁ hframe => ?_
    exact .within (sub (.block hframe))
  | ifElse e s u =>
    refine .bind (sub .condition) fun v m₁ hv => ?_
    split
    · exact sub (.thenBranch hv ‹_›)
    · rename_i hfalse
      cases u with
      | none => exact .pure
      | some u => exact sub (.elseBranch hv (by simpa using hfalse))
  | loop e s => exact sub .loop
  | funDecl decl => exact .of_ok rfl
  | ret token e => exact .bind (sub .ret) fun _ _ _ => .pure
  | classDecl name e methods =>
    refine .bind (sub .classDecl) fun parent m₁ hparent => ?_
    obtain ⟨m₂, hok⟩ := declareClass_ok (hsound.current_lt hparent) name parent methods
    exact .after hok .pure

/-- A fault for want of a variable comes from a reference without a distance. -/
theorem Task.Sound.raises (hsound : t.Sound E m) :
    CallRaises (t.Unbound host fuel m) host fuel m t := by
  induction fuel generalizing t m with
  | zero => cases t <;> exact Raises.outOfFuel
  | succ fuel ih =>
    have sub : ∀ {t₁ m₁}, Enters host fuel t m t₁ m₁ →
        CallRaises (t.Unbound host (fuel + 1) m) host fuel m₁ t₁ :=
      fun hnext => (ih (hnext.sound hsound)).mono fun _ => .enter hnext
    cases t with
    | evaluate e => exact evaluate_raises e hsound sub
    | evaluateAll es =>
      cases es with
      | nil => exact Raises.pure
      | cons e es =>
        refine Raises.bind (sub .first) fun v m₁ hv => ?_
        exact Raises.bind (sub (.others hv)) fun _ _ _ => Raises.pure
    | evaluateOptional e =>
      cases e with
      | none => exact Raises.pure
      | some e => exact sub .given
    | evaluateSuperclass name e =>
      cases e with
      | none => exact Raises.pure
      | some e =>
        refine Raises.bind (sub .superclass) fun v m₁ _ => ?_
        split
        · exact Raises.pure
        · exact Raises.fail (.of_ne (by simp))
    | call f args => exact call_raises f args sub
    | execute s => exact execute_raises s hsound sub
    | executeAll ss =>
      cases ss with
      | nil => exact Raises.pure
      | cons s ss =>
        refine Raises.bind (sub .statement) fun x m₁ hx => ?_
        cases x with
        | normal => exact sub (.statements hx)
        | returned v => exact Raises.pure
    | executeLoop e s =>
      refine Raises.bind (sub .loopCondition) fun v m₁ hv => ?_
      split
      · rename_i htrue
        refine Raises.bind (sub (.loopBody hv htrue)) fun x m₂ hx => ?_
        cases x with
        | normal => exact sub (.again hv htrue hx)
        | returned v => exact Raises.pure
      · exact Raises.pure

end Origin

end GermanLox
