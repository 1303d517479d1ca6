import GermanLox.Proofs.Equality
import GermanLox.Proofs.Session.History

/-!
# What `super` stands for

Where `super` is settled by the text: the class declaration around it, and not the class of the
receiver. When that declaration is executed, its methods are closed in a frame that names the
superclass, and every method that is run is closed in one that names its receiver, one link
further in. So `super` finds the superclass that the class of the running method was made with, and
the receiver of that method, whatever has happened to names since.
-/

namespace GermanLox

/-- The declarations behind a class: its own, that of its superclass, and so on. -/
inductive Descends (made : ClassDecl → Option Class → Class → Prop) :
    Class → List ClassDecl → Prop
  | base {K c} (hmade : made K none c) : Descends made c [K]
  | derived {K parent c Ks} (hmade : made K (some parent) c) (hparent : Descends made parent Ks) :
    Descends made c (K :: Ks)

/-- The last declaration of a method in the nearest class that declares it. -/
def ClassDecl.nearest? (Ks : List ClassDecl) (name : String) : Option FunctionDecl :=
  Ks.findSome? (·.method? name)

/-- The running code stands in a method that is run for an instance: the nearest frame outward that
has `dies` has this instance for it, and is inside the frame that the method was closed in. -/
def RunsIn (m : Machine) (method : Closure) (receiver : InstanceId) : Prop :=
  ∃ d frame, m.store.ancestor? m.current d = some frame ∧
    m.store.enclosing? frame = some method.frame ∧
    m.store.HoldsOnly frame thisName (.ofInstance receiver) ∧
    ∀ j < d, ∀ g, m.store.ancestor? m.current j = some g → m.store.local? g thisName = none

lemma Descends.mono {made made' : ClassDecl → Option Class → Class → Prop} {c : Class}
    {Ks : List ClassDecl} (h : Descends made c Ks)
    (himp : ∀ K parent c, made K parent c → made' K parent c) : Descends made' c Ks := by
  induction h with
  | base hmade => exact .base (himp _ _ _ hmade)
  | derived hmade _ ih => exact .derived (himp _ _ _ hmade) ih

section Founded

variable {C : Chronicle} {w : Roles} {s : Store} {m : Machine}

/-- There are declarations behind every class. -/
lemma Class.Founded.descends {c : Class} (h : c.Founded C w s) : ∃ Ks, Descends C.made c Ks := by
  induction h with
  | @mk k hk _ ih =>
    have hmade := hk.made
    cases hparent : k.parent with
    | none =>
      rw [hparent] at hmade
      exact ⟨[k.decl], .base hmade⟩
    | some p =>
      rw [hparent] at hmade
      obtain ⟨Ks, hKs⟩ := ih p hparent
      exact ⟨k.decl :: Ks, .derived hmade hKs⟩

/-- A frame for a superclass is for the class whose methods are closed in it. -/
lemma Making.Founded.eq_of_role {k k' : Making} {n : String} {method : Closure}
    (hk : k.Founded C w s) (hn : k.own.methods[n]? = some method)
    (hrole : w method.frame = .superclass k') : k = k' := by
  obtain ⟨Γ, home, -, hmethods⟩ := hk.methods
  rw [(hmethods n method hn).1, hk.role, Making.role] at hrole
  split at hrole
  · exact Role.superclass.inj hrole
  · cases hrole

/-- The nearest frame outward that is for a receiver, with the scopes around it. -/
structure ReceiverFrame (w : Roles) (s : Store) (f : FrameId) (d : Nat) (Γ : Layers)
    (home : Option Home) (frame : FrameId) (k : Making) (method : Closure) (i : InstanceId) :
    Prop where
  ancestor : s.ancestor? f d = some frame
  lt : frame < s.frames.size
  role : w frame = .receiver k method i
  home : home = some ⟨k.decl, method.decl⟩
  around : ∃ g home', s.enclosing? frame = some g ∧ Nested w s g (Γ.drop (d + 1)) home'
  nearest : ∀ j < d, ∀ g, s.ancestor? f j = some g →
    g < s.frames.size ∧ (w g).receiver? = none

/-- One frame further in that is for no receiver. -/
lemma ReceiverFrame.inside {f g frame : FrameId} {d : Nat} {Γ : Layers} {home : Option Home}
    {layer : Layer} {k : Making} {method : Closure} {i : InstanceId}
    (h : ReceiverFrame w s g d Γ home frame k method i) (hlt : f < s.frames.size)
    (hnone : (w f).receiver? = none) (hlink : s.enclosing? f = some g) :
    ReceiverFrame w s f (d + 1) (layer :: Γ) home frame k method i := by
  have hancestor : ∀ j, s.ancestor? f (j + 1) = s.ancestor? g j := fun j => by
    rw [Store.ancestor?, hlink, Option.bind_some]
  refine ⟨(hancestor d).trans h.ancestor, h.lt, h.role, h.home, h.around, fun j hj g' hg' => ?_⟩
  cases j with
  | zero =>
    cases hg'
    exact ⟨hlt, hnone⟩
  | succ j => exact h.nearest j (Nat.lt_of_succ_lt_succ hj) g' ((hancestor j).symm.trans hg')

/-- Where the nearest scope of a receiver is, there is the frame, and it is for the method that the
code is at home in. -/
lemma Nested.receiverFrame {f : FrameId} {Γ : Layers} {home : Option Home}
    (h : Nested w s f Γ home) {d : Nat} (hinner : Γ[d]? = some Layer.receiver)
    (hnearest : ∀ j < d, Γ[j]? ≠ some Layer.receiver) :
    ∃ frame k method i, ReceiverFrame w s f d Γ home frame k method i := by
  induction h generalizing d with
  | globals => simp at hinner
  | scope hlt hrole hlabel hlink _ ih =>
    cases d with
    | zero =>
      cases hinner
      cases hlabel
    | succ d =>
      obtain ⟨frame, k, method, i, hframe⟩ := ih (d := d) (by simpa using hinner)
        fun j hj => by simpa using hnearest (j + 1) (Nat.succ_lt_succ hj)
      exact ⟨frame, k, method, i, hframe.inside hlt (by rw [hrole]; rfl) hlink⟩
  | receiver hlt hrole hlink hg _ =>
    cases d with
    | zero => exact ⟨_, _, _, _, rfl, hlt, hrole, rfl, ⟨_, _, hlink, hg⟩, fun j hj => by omega⟩
    | succ d => exact absurd rfl (hnearest 0 (Nat.succ_pos d))
  | superclass hlt hrole hlink _ ih =>
    cases d with
    | zero => cases congrArg Layer.label (Option.some.inj hinner)
    | succ d =>
      obtain ⟨frame, k, method, i, hframe⟩ := ih (d := d) (by simpa using hinner)
        fun j hj => by simpa using hnearest (j + 1) (Nat.succ_lt_succ hj)
      exact ⟨frame, k, method, i, hframe.inside hlt (by rw [hrole]; rfl) hlink⟩

/-- A frame in the scope of a superclass is for one. -/
lemma Nested.exists_superclass {f : FrameId} {Γ : Layers} {home : Option Home}
    (h : Nested w s f Γ home) (hlayer : Γ[0]? = some Layer.superclass) :
    f < s.frames.size ∧ ∃ k, w f = .superclass k := by
  cases h with
  | globals => simp at hlayer
  | scope _ _ hlabel =>
    cases hlayer
    cases hlabel
  | receiver => cases congrArg Layer.label (Option.some.inj hlayer)
  | superclass hlt hrole => exact ⟨hlt, _, hrole⟩

/-- Code that stands in a method of a class that was made with a superclass runs in that method,
and finds both the superclass and the receiver of the method. -/
structure SuperSite (C : Chronicle) (w : Roles) (m : Machine) (i : ExprId) (k : Making)
    (parent : Class) (running : Closure) (receiver : InstanceId) : Prop where
  home : C.home i (some ⟨k.decl, running.decl⟩)
  founded : k.Founded C w m.store
  made : k.parent = some parent
  method : ∃ n : String, k.own.methods[n]? = some running
  runs : RunsIn m running receiver
  only : m.store.HoldsOnly running.frame superName (.ofClass parent)
  found : ∃ d : Nat, m.distances[i]? = some (d + 1) ∧
    m.store.getAt? m.current (d + 1) superName = some (.ofClass parent) ∧
    m.store.getAt? m.current d thisName = some (.ofInstance receiver)

lemma Task.Founded.superSite {i : ExprId} {keyword name : Token} (hm : m.Founded C w)
    (ht : (Task.evaluate (.super i keyword name)).Founded C w m) :
    ∃ k parent running receiver, SuperSite C w m i k parent running receiver := by
  obtain ⟨Γ, home, ⟨⟨σ, hσ, hlike⟩, hhome⟩, hnested⟩ := ht
  cases hlike with
  | @super _ _ _ _ _ _ d _ hentry hlayer hinner _ hnearest =>
    obtain ⟨frame, k, method, receiver, hframe⟩ := hnested.receiverFrame hinner hnearest
    obtain ⟨outer, _, hlink, houter⟩ := hframe.around
    obtain ⟨hlt, k', hsuper⟩ := houter.exists_superclass (by simpa using hlayer)
    have hreceiver := hm.store.roles frame hframe.lt
    rw [hframe.role] at hreceiver
    obtain ⟨hk, ⟨n, hn⟩, hinside, -, hthis⟩ := hreceiver
    obtain rfl : outer = method.frame := Option.some.inj (hlink.symm.trans hinside)
    obtain rfl : k = k' := hk.eq_of_role hn hsuper
    have hsuperclass := hm.store.roles method.frame hlt
    rw [hsuper] at hsuperclass
    obtain ⟨-, p, hp, honly⟩ := hsuperclass
    have houtward : m.store.ancestor? m.current (d + 1) = some method.frame := by
      rw [Store.ancestor?_succ, hframe.ancestor]
      exact hinside
    refine ⟨k, p, method, receiver, ?_, hk, hp, ⟨n, hn⟩, ?_, honly, d, ?_, ?_, ?_⟩
    · exact hframe.home ▸ hhome i (by simp [Expr.numbers])
    · refine ⟨d, frame, hframe.ancestor, hinside, hthis, fun j hj g hg => ?_⟩
      obtain ⟨hglt, hnone⟩ := hframe.nearest j hj g hg
      rw [hm.store.local?_this hglt, hnone]
      rfl
    · exact hm.table _ _ _ (hσ.entry _ _ _ hentry)
    · rw [Store.getAt?, houtward]
      exact honly.self
    · rw [Store.getAt?, hframe.ancestor]
      exact hthis.self

namespace SuperSite

variable {i : ExprId} {k : Making} {parent : Class} {running : Closure} {receiver : InstanceId}

/-- A method that the superclass has is bound to the receiver. -/
lemma evaluate_of_found (h : SuperSite C w m i k parent running receiver) (host : Host) (n : Nat)
    (keyword name : Token) {found : Closure}
    (hfound : parent.findMethod? name.lexeme = some found) :
    ∃ bound m₁, BindsMethod m found receiver bound m₁ ∧
      evaluate host (n + 1) (.super i keyword name) m = .ok (.closure bound) m₁ := by
  obtain ⟨d, hd, hsuper, hthis⟩ := h.found
  obtain ⟨bound, m₁, hbound, hbinds⟩ := Eval.bind_bindsMethod found receiver m
  have heval : Eval.superMethod i keyword name m = _ := Eval.superMethod_of_bound hd hsuper hthis
  rw [hfound] at heval
  exact ⟨bound, m₁, hbinds, heval.trans (EStateM.map_of_ok hbound _)⟩

lemma evaluate_of_none (h : SuperSite C w m i k parent running receiver) (host : Host) (n : Nat)
    (keyword name : Token) (hnone : parent.findMethod? name.lexeme = none) :
    evaluate host (n + 1) (.super i keyword name) m =
      .error (.fault ⟨name, .undefinedProperty⟩) m := by
  obtain ⟨d, hd, hsuper, hthis⟩ := h.found
  have heval : Eval.superMethod i keyword name m = _ := Eval.superMethod_of_bound hd hsuper hthis
  rw [hnone] at heval
  exact heval

end SuperSite

end Founded

namespace Session

/-- The methods of a class are those of the declarations behind it. -/
lemma History.findMethod?_of_descends {h : History} {c : Class} {Ks : List ClassDecl}
    (hc : Descends h.Made c Ks) (n : String) :
    (c.findMethod? n).map Closure.decl = ClassDecl.nearest? Ks n := by
  have hstep : ∀ {K : ClassDecl} {parent : Option Class} {c : Class} {Ks : List ClassDecl},
      h.Made K parent c → ((Class.lineageOf parent).findSome? (·.methods[n]?)).map Closure.decl =
        ClassDecl.nearest? Ks n →
      (c.findMethod? n).map Closure.decl = ClassDecl.nearest? (K :: Ks) n := by
    intro K parent c Ks hmade hrest
    obtain ⟨hancestors, hown⟩ := hmade.methods
    rw [Class.findMethod?, Class.lineage, hancestors, ClassDecl.nearest?, List.findSome?_cons,
      List.findSome?_cons, ← hown n]
    cases c.own.methods[n]? with
    | some method => rfl
    | none => exact hrest
  induction hc with
  | base hmade => exact hstep hmade rfl
  | derived hmade _ ih => exact hstep hmade ih

/-- Methods go by the name that they were declared with. -/
lemma History.Made.name_eq {h : History} {K : ClassDecl} {parent : Option Class} {c : Class}
    (hmade : h.Made K parent c) {n : String} {method : Closure}
    (hn : c.own.methods[n]? = some method) : method.decl.name.lexeme = n := by
  have hdeclared := hmade.methods.2 n
  rw [hn, Option.map_some] at hdeclared
  simpa using List.find?_some hdeclared.symm

/-- Wherever a session comes by `super`, the innermost class declaration around it in the text has
been executed, with a superclass, and has made the class that the running method is from. This
superclass is searched: of the class declarations that it goes back to, the nearest one that
declares the method, and there its last declaration, gives the method, which is bound to what `dies`
is in the running method. If none declares it, the fault is that there is no such property. -/
theorem super_is_static (h : History) {host : Host} {n : Nat} {i : ExprId} {keyword name : Token}
    {m : Machine} (hcomes : h.ComesBy host (n + 1) (.evaluate (.super i keyword name)) m) :
    ∃ K parent created running receiver,
      (∀ home, h.StandsIn i home ↔ home = some ⟨K, running.decl⟩) ∧
      h.Made K (some parent) created ∧
      created.own.methods[running.decl.name.lexeme]? = some running ∧
      m.store.HoldsOnly running.frame superName (.ofClass parent) ∧
      RunsIn m running receiver ∧
      (∃ Ks, Descends h.Made parent Ks) ∧
      ∀ Ks, Descends h.Made parent Ks →
        (∀ decl, ClassDecl.nearest? Ks name.lexeme = some decl → ∃ found bound m₁,
          parent.findMethod? name.lexeme = some found ∧ found.decl = decl ∧
          BindsMethod m found receiver bound m₁ ∧
          evaluate host (n + 1) (.super i keyword name) m = .ok (.closure bound) m₁) ∧
        (ClassDecl.nearest? Ks name.lexeme = none →
          evaluate host (n + 1) (.super i keyword name) m =
            .error (.fault ⟨name, .undefinedProperty⟩) m) := by
  obtain ⟨C, w, hs⟩ := hcomes.sustains
  obtain ⟨k, parent, running, receiver, hsite⟩ := hs.task.superSite hs.machine
  obtain ⟨x, hx⟩ := hsite.method
  obtain ⟨d, -, hsuper, -⟩ := hsite.found
  have hfounded : parent.Founded C w m.store := hs.machine.store.getAt? hsuper
  obtain ⟨Ks, hKs⟩ := hfounded.descends
  have hstands := hs.fits.home _ _ hsite.home
  have hmade := hs.fits.made _ _ _ hsite.founded.made
  rw [hsite.made] at hmade
  refine ⟨k.decl, parent, k.made, running, receiver, fun home => ⟨fun hi => hi.unique hstands,
    fun heq => heq ▸ hstands⟩, hmade, (hmade.name_eq hx).symm ▸ hx, hsite.only, hsite.runs,
    ⟨Ks, hKs.mono hs.fits.made⟩, fun Ks hKs => ?_⟩
  rw [← History.findMethod?_of_descends hKs name.lexeme]
  constructor
  · intro decl hdecl
    obtain ⟨found, hfound, hfrom⟩ := Option.map_eq_some_iff.mp hdecl
    obtain ⟨bound, m₁, hbinds, heval⟩ := hsite.evaluate_of_found host n keyword name hfound
    exact ⟨found, bound, m₁, hfound, hfrom, hbinds, heval⟩
  · intro hnone
    exact hsite.evaluate_of_none host n keyword name (Option.map_eq_none_iff.mp hnone)

private def inheritingSource : String :=
  "klasse A \x7b m() \x7b\x7d \x7d klasse B < A \x7b m() \x7b super.m(); \x7d \x7d " ++
    "klasse C < B \x7b\x7d C().m();"

private def named (name : String) : Token :=
  ⟨.identifier, name, 1⟩

private def rightParen : Token :=
  ⟨.symbol .rightParen, ")", 1⟩

private def superKeyword : Token :=
  ⟨.keyword .super, "super", 1⟩

private def superMethod : Expr :=
  .super 1 superKeyword (named "m")

private def delegating : FunctionDecl :=
  ⟨named "m", [], [.expression (.call 2 superMethod rightParen [])]⟩

private def parentDecl : ClassDecl :=
  ⟨named "A", none, [⟨named "m", [], []⟩]⟩

private def middleDecl : ClassDecl :=
  ⟨named "B", some (.var 0 (named "A")), [delegating]⟩

private def childDecl : ClassDecl :=
  ⟨named "C", some (.var 3 (named "B")), []⟩

private def inheritedMethod : Expr :=
  .get 6 (.call 5 (.var 4 (named "C")) rightParen []) (named "m")

private def inheritingProgram : List Stmt :=
  [parentDecl.stmt, middleDecl.stmt, childDecl.stmt,
    .expression (.call 7 inheritedMethod rightParen [])]

private def mutedHost : Host :=
  ⟨fun _ => 0, fun _ => false⟩

private def beforeParent : Machine :=
  Session.start.ready (({} : Distances).insert 1 2)

private def beforeMiddle : Machine :=
  Machine.after (execute mutedHost 39 parentDecl.stmt beforeParent)

private def beforeChild : Machine :=
  Machine.after (execute mutedHost 38 middleDecl.stmt beforeMiddle)

private def beforeCall : Machine :=
  Machine.after (execute mutedHost 37 childDecl.stmt beforeChild)

set_option maxRecDepth 2000 in
/-- `C` inherits from `B` the method that calls `super`: it runs for an instance of `C`, and what is
searched is the superclass that `B` was made with. -/
theorem super_is_static_inherited :
    ∃ m parent created running receiver,
      (History.start.run mutedHost 40 inheritingSource).ComesBy mutedHost 30
        (.evaluate superMethod) m ∧
      (History.start.run mutedHost 40 inheritingSource).Made middleDecl (some parent) created ∧
      created.own.methods["m"]? = some running ∧ running.decl = delegating ∧
      RunsIn m running receiver := by
  have hcompile : compile inheritingSource 0 =
      (.ok (inheritingProgram, ({} : Distances).insert 1 2), 8) :=
    compile_of_ok (by decide +kernel) (by decide +kernel) rfl
  have hfirst : execute mutedHost 39 parentDecl.stmt beforeParent = .ok .normal beforeMiddle :=
    eq_of_endsNormally (by decide +kernel)
  have hsecond : execute mutedHost 38 middleDecl.stmt beforeMiddle = .ok .normal beforeChild :=
    eq_of_endsNormally (by decide +kernel)
  have hthird : execute mutedHost 37 childDecl.stmt beforeChild = .ok .normal beforeCall :=
    eq_of_endsNormally (by decide +kernel)
  have hfunction : (functionOf? (evaluate mutedHost 34 inheritedMethod beforeCall)).map
      Closure.decl = some delegating := rfl
  obtain ⟨⟨identity, decl, frame, isInitializer⟩, hc, rfl⟩ := Option.map_eq_some_iff.mp hfunction
  have hcomes : (History.start.run mutedHost 40 inheritingSource).ComesBy mutedHost 30
      (.evaluate superMethod) _ :=
    .now hcompile (.step (.step (.step (.step (.step (.step (.step (.step (.step (.step .refl
      (.statements hfirst)) (.statements hsecond)) (.statements hthird)) .statement) .expression)
      (.call (eq_of_functionOf? hc) rfl rfl rfl)) (.body rfl rfl)) .statement) .expression) .callee)
  have hstands : (History.start.run mutedHost 40 inheritingSource).StandsIn 1
      (some ⟨middleDecl, delegating⟩) := by
    have hprograms : (History.start.run mutedHost 40 inheritingSource).programs =
        [inheritingProgram] := History.programs_run (compile_eq_ok_iff.mp hcompile)
    refine ⟨inheritingProgram, ?_, List.mem_of_getElem? (i := 2) rfl⟩
    rw [hprograms]
    exact List.mem_singleton_self _
  obtain ⟨K, parent, created, running, receiver, hhome, hmade, hown, -, hruns, -⟩ :=
    super_is_static _ hcomes
  obtain ⟨rfl, hdecl⟩ := Home.mk.inj (Option.some.inj ((hhome _).mp hstands))
  rw [← hdecl] at hown
  exact ⟨_, parent, created, running, receiver, hcomes, hmade, hown, hdecl.symm, hruns⟩

end Session

end GermanLox
