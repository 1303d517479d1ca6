import GermanLox.Evaluator
import Mathlib.Tactic.Common

/-!
# Relations that every run keeps

A relation between actions that holds of each single action of the machine with itself, and that
sequencing keeps, holds of the evaluator with itself. It holds of the evaluator with different
amounts of fuel if it holds of what has no fuel, and on different hosts if it holds of what asks the
host.
-/

namespace GermanLox

/-- The machine that an action leaves, however it ends. -/
def Machine.after {α : Type} : EStateM.Result Stop Machine α → Machine
  | .ok _ m => m
  | .error _ m => m

/-- A relation between actions that the parts of the evaluator are kept by. -/
structure Congruent (R : ∀ ⦃α : Type⦄, Eval α → Eval α → Prop) : Prop where
  pure : ∀ {α : Type} (a : α), R (Pure.pure a) (Pure.pure a)
  bind : ∀ {α β : Type} {x x' : Eval α} {f f' : α → Eval β}, R x x' → (∀ a, R (f a) (f' a)) →
    R (x >>= f) (x' >>= f')
  within : ∀ {α : Type} {x x' : Eval α} (frame : FrameId), R x x' →
    R (Eval.within frame x) (Eval.within frame x')
  fail : ∀ {α : Type} (t : Token) (cause : FaultCause),
    R (Eval.fail t cause : Eval α) (Eval.fail t cause)
  freshIdentity : R Eval.freshIdentity Eval.freshIdentity
  inspect : ∀ {α : Type} (f : Store → α), R (Eval.inspect f) (Eval.inspect f)
  define : ∀ (frame : FrameId) (name : String) (v : Value),
    R (Eval.define frame name v) (Eval.define frame name v)
  setField : ∀ (i : InstanceId) (name : String) (v : Value),
    R (Eval.change (Store.setField i name v)) (Eval.change (Store.setField i name v))
  currentFrame : R Eval.currentFrame Eval.currentFrame
  newFrame : ∀ outer : FrameId, R (Eval.newFrame outer) (Eval.newFrame outer)
  newInstance : ∀ c : Class, R (Eval.newInstance c) (Eval.newInstance c)
  distance? : ∀ i : ExprId, R (Eval.distance? i) (Eval.distance? i)
  getAt? : ∀ (distance : Nat) (name : String),
    R (Eval.getAt? distance name) (Eval.getAt? distance name)

/-- A relation between what two hosts are asked for. -/
structure RelatedHosts (R : ∀ ⦃α : Type⦄, Eval α → Eval α → Prop) (host host' : Host) : Prop where
  print : ∀ v : Value, R (Eval.print host v) (Eval.print host' v)
  readClock : R (Eval.readClock host) (Eval.readClock host')

/-- A relation between the evaluator on two hosts with two amounts of fuel. -/
structure Related (R : ∀ ⦃α : Type⦄, Eval α → Eval α → Prop) (host host' : Host) (n n' : Nat) :
    Prop where
  evaluate : ∀ e, R (GermanLox.evaluate host n e) (GermanLox.evaluate host' n' e)
  evaluateAll : ∀ es, R (GermanLox.evaluateAll host n es) (GermanLox.evaluateAll host' n' es)
  evaluateOptional : ∀ e,
    R (GermanLox.evaluateOptional host n e) (GermanLox.evaluateOptional host' n' e)
  evaluateSuperclass : ∀ name e,
    R (GermanLox.evaluateSuperclass host n name e) (GermanLox.evaluateSuperclass host' n' name e)
  call : ∀ f args, R (GermanLox.call host n f args) (GermanLox.call host' n' f args)
  execute : ∀ s, R (GermanLox.execute host n s) (GermanLox.execute host' n' s)
  executeAll : ∀ ss, R (GermanLox.executeAll host n ss) (GermanLox.executeAll host' n' ss)
  executeLoop : ∀ e s, R (GermanLox.executeLoop host n e s) (GermanLox.executeLoop host' n' e s)

namespace Congruent

variable {R : ∀ ⦃α : Type⦄, Eval α → Eval α → Prop} (hR : Congruent R)

include hR

/-! ### Actions made of others -/

lemma orFail {α : Type} (t : Token) (cause : FaultCause) (a : Option α) :
    R (Eval.orFail t cause a) (Eval.orFail t cause a) := by
  cases a with
  | none => exact hR.fail t cause
  | some a => exact hR.pure a

lemma defineAll (frame : FrameId) (bindings : List (String × Value)) :
    R (Eval.defineAll frame bindings) (Eval.defineAll frame bindings) := by
  induction bindings with
  | nil => exact hR.pure ()
  | cons binding bindings ih => exact hR.bind (hR.define frame _ _) fun _ => ih

lemma assignFrom (frame : FrameId) (name : Token) (v : Value) :
    R (Eval.assignFrom frame name v) (Eval.assignFrom frame name v) :=
  hR.bind (hR.inspect _) fun target =>
    hR.bind (hR.orFail name .undefinedVariable target) fun f => hR.define f name.lexeme v

lemma assignAt (distance : Nat) (name : Token) (v : Value) :
    R (Eval.assignAt distance name v) (Eval.assignAt distance name v) :=
  hR.bind hR.currentFrame fun _ => hR.bind (hR.inspect _) fun target =>
    hR.bind (hR.orFail name .undefinedVariable target) fun f => hR.define f name.lexeme v

lemma lookUp (i : ExprId) (name : Token) : R (Eval.lookUp i name) (Eval.lookUp i name) := by
  refine hR.bind (hR.distance? i) fun distance => ?_
  cases distance with
  | none => exact hR.bind (hR.inspect _) fun v => hR.orFail name .undefinedVariable v
  | some distance =>
    exact hR.bind (hR.getAt? distance _) fun v => hR.orFail name .undefinedVariable v

lemma assign (i : ExprId) (name : Token) (v : Value) :
    R (Eval.assign i name v) (Eval.assign i name v) := by
  refine hR.bind (hR.distance? i) fun distance => ?_
  cases distance with
  | none => exact hR.assignFrom Store.globals name v
  | some distance => exact hR.assignAt distance name v

lemma close (decl : FunctionDecl) (frame : FrameId) (isInitializer : Bool) :
    R (Eval.close decl frame isInitializer) (Eval.close decl frame isInitializer) :=
  hR.bind hR.freshIdentity fun _ => hR.pure _

lemma bindMethod (method : Closure) (receiver : InstanceId) :
    R (Eval.bind method receiver) (Eval.bind method receiver) :=
  hR.bind (hR.newFrame method.frame) fun frame =>
    hR.bind (hR.define frame thisName _) fun _ => hR.close method.decl frame method.isInitializer

lemma property (i : InstanceId) (name : Token) :
    R (Eval.property i name) (Eval.property i name) := by
  refine hR.bind (hR.inspect _) fun field => ?_
  cases field with
  | some v => exact hR.pure v
  | none =>
    refine hR.bind (hR.inspect _) fun method => ?_
    cases method with
    | some method => exact hR.bind (hR.bindMethod method i) fun _ => hR.pure _
    | none => exact hR.fail name .undefinedProperty

lemma superAndReceiver (i : ExprId) (keyword : Token) :
    R (Eval.superAndReceiver i keyword) (Eval.superAndReceiver i keyword) := by
  refine hR.bind (hR.distance? i) fun distance => ?_
  cases distance with
  | none => exact hR.fail keyword .undefinedVariable
  | some distance =>
    refine hR.bind (hR.getAt? distance superName) fun parent => ?_
    split
    · split
      · exact hR.fail keyword .undefinedVariable
      · refine hR.bind (hR.getAt? _ thisName) fun receiver => ?_
        split
        · exact hR.pure _
        · exact hR.fail keyword .undefinedVariable
    · exact hR.fail keyword .undefinedVariable

lemma superMethod (i : ExprId) (keyword method : Token) :
    R (Eval.superMethod i keyword method) (Eval.superMethod i keyword method) := by
  refine hR.bind (hR.superAndReceiver i keyword) fun ⟨parent, receiver⟩ => ?_
  dsimp only
  split
  · exact hR.bind (hR.bindMethod _ receiver) fun _ => hR.pure _
  · exact hR.fail method .undefinedProperty

lemma unary (op : UnaryOp) (t : Token) (v : Value) : R (op.apply t v) (op.apply t v) := by
  cases op with
  | not => exact hR.pure _
  | negate =>
    cases v with
    | number x => exact hR.pure _
    | _ => exact hR.fail t .operandNotNumber

lemma arithmetic (f : Float → Float → Value) (t : Token) (v u : Value) :
    R (GermanLox.arithmetic f t v u) (GermanLox.arithmetic f t v u) := by
  unfold GermanLox.arithmetic
  split
  · exact hR.pure _
  · exact hR.fail t .operandsNotNumbers

lemma addition (t : Token) (v u : Value) :
    R (GermanLox.addition t v u) (GermanLox.addition t v u) := by
  unfold GermanLox.addition
  split
  · exact hR.pure _
  · exact hR.pure _
  · exact hR.fail t .operandsNotAddable

lemma binary (op : BinaryOp) (t : Token) (v u : Value) : R (op.apply t v u) (op.apply t v u) := by
  cases op with
  | equal => exact hR.pure _
  | notEqual => exact hR.pure _
  | add => exact hR.addition t v u
  | _ => exact hR.arithmetic _ t v u

lemma methodFrame (parent : Option Class) :
    R (GermanLox.methodFrame parent) (GermanLox.methodFrame parent) := by
  refine hR.bind hR.currentFrame fun frame => ?_
  cases parent with
  | none => exact hR.pure frame
  | some c =>
    exact hR.bind (hR.newFrame frame) fun inner =>
      hR.bind (hR.define inner superName _) fun _ => hR.pure inner

lemma closeMethods (frame : FrameId) (methods : Std.TreeMap String Closure)
    (decls : List FunctionDecl) :
    R (GermanLox.closeMethods frame methods decls)
      (GermanLox.closeMethods frame methods decls) := by
  induction decls generalizing methods with
  | nil => exact hR.pure methods
  | cons decl decls ih => exact hR.bind (hR.close decl frame _) fun _ => ih _

lemma declareClass (name : Token) (parent : Option Class) (methods : List FunctionDecl) :
    R (GermanLox.declareClass name parent methods) (GermanLox.declareClass name parent methods) :=
  hR.bind hR.currentFrame fun frame => hR.bind (hR.define frame _ _) fun _ =>
    hR.bind (hR.methodFrame parent) fun inner => hR.bind (hR.closeMethods inner {} methods) fun _ =>
      hR.bind hR.freshIdentity fun _ => hR.assignFrom frame name _

lemma callResult (c : Closure) (completion : Completion) :
    R (GermanLox.callResult c completion) (GermanLox.callResult c completion) := by
  unfold GermanLox.callResult
  split
  · exact hR.bind (hR.inspect _) fun _ => hR.pure _
  · cases completion with
    | returned v => exact hR.pure v
    | normal => exact hR.pure _

/-! ### The evaluator -/

section Step

variable {host host' : Host} {n n' : Nat} (ih : Related R host host' n n')

include ih

lemma evaluate_succ (e : Expr) :
    R (GermanLox.evaluate host (n + 1) e) (GermanLox.evaluate host' (n' + 1) e) := by
  cases e with
  | literal i v => exact hR.pure _
  | grouping i e => exact ih.evaluate e
  | unary i op t e => exact hR.bind (ih.evaluate e) fun v => hR.unary op t v
  | binary i op t left right =>
    exact hR.bind (ih.evaluate left) fun v => hR.bind (ih.evaluate right) fun u =>
      hR.binary op t v u
  | logical i op t left right =>
    refine hR.bind (ih.evaluate left) fun v => ?_
    split
    · exact hR.pure v
    · exact ih.evaluate right
  | var i name => exact hR.lookUp i name
  | assign i name e =>
    exact hR.bind (ih.evaluate e) fun v => hR.bind (hR.assign i name v) fun _ => hR.pure v
  | call i e t es =>
    refine hR.bind (ih.evaluate e) fun v => hR.bind (ih.evaluateAll es) fun args => ?_
    split
    · exact hR.fail t .notCallable
    · split
      · exact ih.call _ args
      · exact hR.fail t _
  | get i e name =>
    refine hR.bind (ih.evaluate e) fun v => ?_
    split
    · exact hR.property _ name
    · exact hR.fail name .notAnInstance
  | set i e name value =>
    refine hR.bind (ih.evaluate e) fun v => ?_
    split
    · exact hR.bind (ih.evaluate value) fun u =>
        hR.bind (hR.setField _ name.lexeme u) fun _ => hR.pure u
    · exact hR.fail name .fieldsNeedInstance
  | this i keyword => exact hR.lookUp i keyword
  | super i keyword method => exact hR.superMethod i keyword method

lemma evaluateAll_succ (es : List Expr) :
    R (GermanLox.evaluateAll host (n + 1) es) (GermanLox.evaluateAll host' (n' + 1) es) := by
  cases es with
  | nil => exact hR.pure []
  | cons e es =>
    exact hR.bind (ih.evaluate e) fun _ => hR.bind (ih.evaluateAll es) fun _ => hR.pure _

lemma evaluateOptional_succ (e : Option Expr) :
    R (GermanLox.evaluateOptional host (n + 1) e)
      (GermanLox.evaluateOptional host' (n' + 1) e) := by
  cases e with
  | none => exact hR.pure _
  | some e => exact ih.evaluate e

lemma evaluateSuperclass_succ (name : Token) (e : Option Expr) :
    R (GermanLox.evaluateSuperclass host (n + 1) name e)
      (GermanLox.evaluateSuperclass host' (n' + 1) name e) := by
  cases e with
  | none => exact hR.pure none
  | some e =>
    refine hR.bind (ih.evaluate e) fun v => ?_
    split
    · exact hR.pure _
    · exact hR.fail _ .superclassNotAClass

lemma call_succ (hhosts : RelatedHosts R host host') (f : Callable) (args : List Value) :
    R (GermanLox.call host (n + 1) f args) (GermanLox.call host' (n' + 1) f args) := by
  cases f with
  | builtin b =>
    cases b
    exact hhosts.readClock
  | closure c =>
    exact hR.bind (hR.newFrame c.frame) fun frame => hR.bind (hR.defineAll frame _) fun _ =>
      hR.bind (hR.within frame (ih.executeAll c.decl.body)) fun x => hR.callResult c x
  | ofClass c =>
    refine hR.bind (hR.newInstance c) fun i => ?_
    split
    · exact hR.pure _
    · exact hR.bind (hR.bindMethod _ i) fun bound =>
        hR.bind (ih.call (.closure bound) args) fun _ => hR.pure _

lemma execute_succ (hhosts : RelatedHosts R host host') (s : Stmt) :
    R (GermanLox.execute host (n + 1) s) (GermanLox.execute host' (n' + 1) s) := by
  cases s with
  | expression e => exact hR.bind (ih.evaluate e) fun _ => hR.pure _
  | print e =>
    exact hR.bind (ih.evaluate e) fun v => hR.bind (hhosts.print v) fun _ => hR.pure _
  | varDecl name e =>
    exact hR.bind (ih.evaluateOptional e) fun v => hR.bind hR.currentFrame fun frame =>
      hR.bind (hR.define frame name.lexeme v) fun _ => hR.pure _
  | block body =>
    exact hR.bind hR.currentFrame fun outer => hR.bind (hR.newFrame outer) fun frame =>
      hR.within frame (ih.executeAll body)
  | ifElse e s u =>
    refine hR.bind (ih.evaluate e) fun v => ?_
    split
    · exact ih.execute s
    · cases u with
      | none => exact hR.pure _
      | some u => exact ih.execute u
  | loop e s => exact ih.executeLoop e s
  | funDecl decl =>
    exact hR.bind hR.currentFrame fun frame => hR.bind (hR.close decl frame false) fun c =>
      hR.bind (hR.define frame decl.name.lexeme _) fun _ => hR.pure _
  | ret t e => exact hR.bind (ih.evaluateOptional e) fun _ => hR.pure _
  | classDecl name e methods =>
    exact hR.bind (ih.evaluateSuperclass name e) fun parent =>
      hR.bind (hR.declareClass name parent methods) fun _ => hR.pure _

lemma executeAll_succ (ss : List Stmt) :
    R (GermanLox.executeAll host (n + 1) ss) (GermanLox.executeAll host' (n' + 1) ss) := by
  cases ss with
  | nil => exact hR.pure _
  | cons s ss =>
    refine hR.bind (ih.execute s) fun x => ?_
    cases x with
    | returned v => exact hR.pure _
    | normal => exact ih.executeAll ss

lemma executeLoop_succ (e : Expr) (s : Stmt) :
    R (GermanLox.executeLoop host (n + 1) e s) (GermanLox.executeLoop host' (n' + 1) e s) := by
  refine hR.bind (ih.evaluate e) fun v => ?_
  split
  · refine hR.bind (ih.execute s) fun x => ?_
    cases x with
    | returned u => exact hR.pure _
    | normal => exact ih.executeLoop e s
  · exact hR.pure _

/-- What holds with some fuel holds with one more piece of it. -/
lemma related_succ (hhosts : RelatedHosts R host host') :
    Related R host host' (n + 1) (n' + 1) where
  evaluate := hR.evaluate_succ ih
  evaluateAll := hR.evaluateAll_succ ih
  evaluateOptional := hR.evaluateOptional_succ ih
  evaluateSuperclass := hR.evaluateSuperclass_succ ih
  call := hR.call_succ ih hhosts
  execute := hR.execute_succ ih hhosts
  executeAll := hR.executeAll_succ ih
  executeLoop := hR.executeLoop_succ ih

end Step

section Runs

variable {host host' : Host} (hhosts : RelatedHosts R host host')

include hhosts

/-- If the relation holds of running out of fuel, it holds of the evaluator with itself. -/
theorem related (hstop : ∀ {α : Type}, R (Eval.outOfFuel : Eval α) Eval.outOfFuel) (n : Nat) :
    Related R host host' n n := by
  induction n with
  | zero => exact ⟨fun _ => hstop, fun _ => hstop, fun _ => hstop, fun _ _ => hstop,
      fun _ _ => hstop, fun _ => hstop, fun _ => hstop, fun _ _ => hstop⟩
  | succ n ih => exact hR.related_succ ih hhosts

/-- If running out of fuel is related to everything, so is the evaluator to itself with more
fuel. -/
theorem related_of_le (hstop : ∀ {α : Type} (x : Eval α), R Eval.outOfFuel x) {n n' : Nat}
    (h : n ≤ n') : Related R host host' n n' := by
  induction n generalizing n' with
  | zero => exact ⟨fun _ => hstop _, fun _ => hstop _, fun _ => hstop _, fun _ _ => hstop _,
      fun _ _ => hstop _, fun _ => hstop _, fun _ => hstop _, fun _ _ => hstop _⟩
  | succ n ih =>
    obtain ⟨k, rfl⟩ : ∃ k, n' = k + 1 := ⟨n' - 1, by omega⟩
    exact hR.related_succ (ih (by omega)) hhosts

end Runs

end Congruent

end GermanLox
