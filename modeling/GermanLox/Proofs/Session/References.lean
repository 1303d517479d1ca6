import GermanLox.Proofs.Equality
import GermanLox.Proofs.Run.Origin
import GermanLox.Proofs.Session.Sound

/-!
# References in sessions

The distances that were found for the text are right at run time: wherever a session comes by a
reference with a distance, the frame that far outward is there and has the name. A reference
without a distance is about the globals only, and it alone can fail for want of a variable.
-/

namespace GermanLox

/-- With a distance, a reference finds its name in a frame of its own scope. -/
def Expr.LinesUp (early : ExprId → Prop) (m : Machine) (i : ExprId) (e : Expr) : Prop :=
  ∀ d, m.distances[i]? = some d → ∃ frame, Outward m d frame ∧ e.FindsAt early m d frame

/-- What a reference does if it reads or sets a global variable and nothing else. -/
def Expr.ActsOnGlobals (host : Host) (fuel : Nat) (m : Machine) : Expr → Prop
  | .var i name => GermanLox.evaluate host (fuel + 1) (.var i name) m =
      Eval.orFail name .undefinedVariable (m.store.local? Store.globals name.lexeme) m
  | .assign i name value => ∀ v m₁, GermanLox.evaluate host fuel value m = .ok v m₁ →
      GermanLox.evaluate host (fuel + 1) (.assign i name value) m =
        if (m₁.store.local? Store.globals name.lexeme).isSome then
          .ok v { m₁ with store := m₁.store.define Store.globals name.lexeme v }
        else .error (.fault ⟨name, .undefinedVariable⟩) m₁
  | _ => False

/-- Without a distance, a reference is about the globals. -/
lemma Task.Sound.actsOnGlobals {E : Setting} {host : Host} {fuel : Nat} {m : Machine} {e : Expr}
    (hsound : (Task.evaluate e).Sound E m) {i : ExprId} {t : Token}
    (he : e.reference? = some (i, t)) (hi : m.distances[i]? = none) :
    e.ActsOnGlobals host fuel m := by
  have houtermost : m.store.enclosing? Store.globals = none := by
    obtain ⟨w, h, -⟩ := hsound
    exact h.store.outermost
  rcases hsound.has_distance he hi with ⟨name, rfl⟩ | ⟨name, value, rfl⟩
  · change Eval.lookUp i name m = _
    rw [Eval.lookUp_of_none hi, Store.get?_globals houtermost]
  · intro v m₁ hv
    obtain ⟨⟨w₁, h₁, -⟩, htable⟩ := hsound.after_value hv
    have hassign : GermanLox.evaluate host (fuel + 1) (.assign i name value) m =
        (Eval.assign i name v >>= fun _ => pure v) m₁ := by
      simp only [GermanLox.evaluate, Bind.bind, EStateM.bind, hv]
    rw [hassign]
    change EStateM.bind _ _ m₁ = _
    rw [EStateM.bind, Eval.assign_of_none (htable.trans hi), Eval.assignFrom_eq,
      Store.frameOf?_globals h₁.store.outermost]
    by_cases hbound : (m₁.store.local? Store.globals name.lexeme).isSome
    · rw [if_pos hbound, if_pos hbound]
      rfl
    · rw [if_neg hbound, if_neg hbound]
      rfl

namespace Session

/-- The assignments that stand in the initializer of the variable they set. -/
def Early (programs : List (List Stmt)) (i : ExprId) : Prop :=
  ∃ program ∈ programs, i ∈ Stmt.ownAssignsAll program

/-- Wherever a session comes by a reference, whether or not its runs end: a reference with a
distance finds its name that far outward in a frame that is not the global one, and an assignment
does so, too, when its value is there; a reference without a distance reads or sets a global
variable. A run that fails for want of a variable has come by a reference without a distance that
raised the fault. -/
theorem references_line_up {programs : List (List Stmt)} {s : Session} (hs : Reached programs s)
    {source : String} {program : List Stmt} {distances : Distances} {k : ExprId}
    (hcompile : compile source s.nextId = (.ok (program, distances), k)) (host : Host)
    (fuel : Nat) :
    (∀ n e m i t, Reaches host fuel (.executeAll program) (s.ready distances) (n + 1)
        (.evaluate e) m → e.reference? = some (i, t) →
      e.LinesUp (Early (programs ++ [program])) m i ∧
        (∀ name value v m₁, e = .assign i name value → evaluate host n value m = .ok v m₁ →
          e.LinesUp (Early (programs ++ [program])) m₁ i) ∧
        (m.distances[i]? = none → e.ActsOnGlobals host n m)) ∧
      ∀ f, (s.run host fuel source).1.verdict = .failed f → f.cause = .undefinedVariable →
        ∃ n e m, Reaches host fuel (.executeAll program) (s.ready distances) (n + 1)
          (.evaluate e) m ∧ e.Misses host n m f := by
  have h := compile_eq_ok_iff.mp hcompile
  obtain ⟨⟨w, hw⟩, hcode⟩ := hs.sound.before h
  have hsound : (Task.executeAll program).Sound
      (known (programs ++ [program]) ⟨s.ready distances, k⟩) (s.ready distances) :=
    ⟨w, hw, _, false, [], .refl _, hcode, hs.sound.current⟩
  constructor
  · intro n e m i t hreach he
    have hstep := hreach.sound hsound
    refine ⟨fun d hd => hstep.finds he hd, ?_, fun hi => hstep.actsOnGlobals he hi⟩
    rintro name value v m₁ rfl hv d hd
    exact (hstep.after_value hv).1.finds he hd
  · intro f hverdict
    rw [run_of_accepted h] at hverdict
    cases hrun : executeAll host fuel program (s.ready distances) with
    | ok x m => simp [Verdict.ofResult, hrun] at hverdict
    | error stop m =>
      cases stop with
      | outOfFuel => simp [Verdict.ofResult, hrun] at hverdict
      | fault f' =>
        obtain rfl : f' = f := by simpa [Verdict.ofResult, hrun] using hverdict
        exact hsound.raises f' m hrun

private def quietHost : Host :=
  ⟨fun _ => 0, fun _ => true⟩

private def localName : Token :=
  ⟨.identifier, "a", 1⟩

private def missingName : Token :=
  ⟨.identifier, "b", 1⟩

private def localThenMissing : List Stmt :=
  [.block [.varDecl localName none, .print (.var 0 localName)], .print (.var 1 missingName)]

/-- The local variable of a block is found in the frame of the block; the name after the block is
not found. -/
theorem references_line_up_localThenMissing :
    ∃ distances k, compile "{ var a; drucke a; } drucke b;" 0 =
        (.ok (localThenMissing, distances), k) ∧
      (∃ n m frame, Reaches quietHost 9 (.executeAll localThenMissing) (start.ready distances)
        (n + 1) (.evaluate (.var 0 localName)) m ∧ m.distances[0]? = some 0 ∧ Outward m 0 frame ∧
        (m.store.local? frame "a").isSome) ∧
      ∃ n e m, Reaches quietHost 9 (.executeAll localThenMissing) (start.ready distances) (n + 1)
        (.evaluate e) m ∧ e.Misses quietHost n m ⟨missingName, .undefinedVariable⟩ := by
  have hcompile : compile "{ var a; drucke a; } drucke b;" 0 =
      (.ok (localThenMissing, ({} : Distances).insert 0 0), 2) :=
    compile_of_ok (by decide +kernel) (by decide +kernel) rfl
  obtain ⟨hfound, hfailed⟩ := references_line_up .start hcompile quietHost 9
  refine ⟨_, _, hcompile, ?_, hfailed _ (by decide +kernel) rfl⟩
  have hreach : Reaches quietHost 9 (.executeAll localThenMissing)
      (start.ready (({} : Distances).insert 0 0)) 4 (.evaluate (.var 0 localName)) _ :=
    .step (.step (.step (.step (.step .refl .statement) (.block rfl)) (.statements rfl))
      .statement) .print
  obtain ⟨frame, houtward, hbound⟩ := (hfound _ _ _ _ _ hreach rfl).1 0 (by decide +kernel)
  exact ⟨_, _, frame, hreach, by decide +kernel, houtward, hbound⟩

end Session

end GermanLox
