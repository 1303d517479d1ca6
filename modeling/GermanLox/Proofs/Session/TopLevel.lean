import GermanLox.Proofs.Equality
import GermanLox.Proofs.Run.Reach
import GermanLox.Proofs.Session.Sound

/-!
# Statements at the top level

Only a function or a method can be returned from. Statements outside of all functions therefore end
normally or fail, and a run that succeeds has executed all of them, one after another.
-/

namespace GermanLox

/-- Running `ss` comes to the statement `s`: all before it have ended normally. -/
inductive ComesTo (host : Host) : Nat → List Stmt → Machine → Nat → Stmt → Machine → Prop
  | here {fuel s ss m} : ComesTo host (fuel + 1) (s :: ss) m fuel s m
  | later {fuel s ss m m₁ n u m₂} (hfirst : execute host fuel s m = .ok .normal m₁)
    (hrest : ComesTo host fuel ss m₁ n u m₂) : ComesTo host (fuel + 1) (s :: ss) m n u m₂

/-- The statements are executed in their order, each of them once and on the machine that the one
before has left, and all end normally. -/
inductive InOrder (host : Host) : Nat → List Stmt → Machine → Machine → Prop
  | nil {fuel m} : InOrder host (fuel + 1) [] m m
  | cons {fuel s ss m m₁ m₂} (hfirst : execute host fuel s m = .ok .normal m₁)
    (hrest : InOrder host fuel ss m₁ m₂) : InOrder host (fuel + 1) (s :: ss) m m₂

variable {E σ : Setting} {host : Host} {fuel : Nat} {w : Labels} {m m₁ : Machine} {Γ : Layers}
  {ss : List Stmt}

/-- Outside of functions a statement does not return. -/
lemma execute_ne_returned (hfits : σ.Fits E) {s : Stmt} {Γ₁ : Layers}
    (hs : StmtLike σ false Γ s s Γ₁) (h : Agree E w m m) (halign : Aligned w m.store m.current Γ)
    (v : Value) : execute host fuel s m ≠ .ok (.returned v) m₁ := by
  intro hreturned
  obtain ⟨w₁, -, -, -, hx⟩ := ((runsAlike E host fuel).execute hfits hs h halign).of_ok hreturned
  cases hx with
  | returned hinside => cases hinside

lemma ComesTo.ne_returned {n : Nat} {u : Stmt} (hto : ComesTo host fuel ss m n u m₁)
    (hfits : σ.Fits E) (hss : StmtsLike σ false Γ ss ss) (h : Agree E w m m)
    (halign : Aligned w m.store m.current Γ) (v : Value) (m₂ : Machine) :
    execute host n u m₁ ≠ .ok (.returned v) m₂ := by
  induction hto generalizing w Γ with
  | here =>
    cases hss with
    | cons hs _ => exact execute_ne_returned hfits hs h halign v
  | later hfirst _ ih =>
    cases hss with
    | cons hs hss =>
      obtain ⟨w₁, h₁, halign₁⟩ := Enters.after_execute hfits hs h halign hfirst
      exact ih hss h₁ halign₁

/-- If no statement that is come to returns, the run does not end before its last statement. -/
lemma executeAll_ne_returned
    (hnone : ∀ n u m₁ v m₂, ComesTo host fuel ss m n u m₁ →
      execute host n u m₁ ≠ .ok (.returned v) m₂) (v : Value) :
    executeAll host fuel ss m ≠ .ok (.returned v) m₁ := by
  intro hreturned
  induction ss generalizing fuel m with
  | nil => cases fuel <;> cases hreturned
  | cons s ss ih =>
    cases fuel with
    | zero => cases hreturned
    | succ fuel =>
      rw [executeAll] at hreturned
      obtain ⟨x, m₂, hfirst, hrest⟩ := EStateM.bind_eq_ok hreturned
      cases x with
      | normal => exact ih (fun n u m₁ v m₂ hto => hnone n u m₁ v m₂ (.later hfirst hto)) hrest
      | returned v => exact hnone _ _ _ _ _ .here hfirst

lemma inOrder_iff : InOrder host fuel ss m m₁ ↔ executeAll host fuel ss m = .ok .normal m₁ := by
  constructor
  · intro h
    induction h with
    | nil => rfl
    | cons hfirst _ ih =>
      rw [executeAll, EStateM.bind_of_ok hfirst]
      exact ih
  · intro h
    induction ss generalizing fuel m with
    | nil =>
      cases fuel with
      | zero => cases h
      | succ fuel =>
        cases h
        exact .nil
    | cons s ss ih =>
      cases fuel with
      | zero => cases h
      | succ fuel =>
        rw [executeAll] at h
        obtain ⟨x, m₂, hfirst, hrest⟩ := EStateM.bind_eq_ok h
        cases x with
        | normal => exact .cons hfirst (ih hrest)
        | returned v => cases hrest

namespace Session

/-- In every run of a session, each statement at the top level that is come to ends normally or
fails, so the run never ends early by a return; and it succeeds exactly if all statements of the
program are executed, in their order and each of them once. -/
theorem run_executes_in_order {programs : List (List Stmt)} {s : Session}
    (hs : Reached programs s) {source : String} {program : List Stmt} {distances : Distances}
    {k : ExprId} (hcompile : compile source s.nextId = (.ok (program, distances), k)) (host : Host)
    (fuel : Nat) :
    (∀ n u m, ComesTo host fuel program (s.ready distances) n u m →
      (∃ m₁, execute host n u m = .ok .normal m₁) ∨
        ∃ stop m₁, execute host n u m = .error stop m₁) ∧
      (∀ v m, executeAll host fuel program (s.ready distances) ≠ .ok (.returned v) m) ∧
      ((s.run host fuel source).1.verdict = .completed ↔
        InOrder host fuel program (s.ready distances) (s.run host fuel source).2.machine) := by
  have h := compile_eq_ok_iff.mp hcompile
  obtain ⟨⟨w, hw⟩, hcode⟩ := hs.sound.before h
  have hnone : ∀ n u m v m₁, ComesTo host fuel program (s.ready distances) n u m →
      execute host n u m ≠ .ok (.returned v) m₁ :=
    fun n u m v m₁ hto => hto.ne_returned (.refl _) hcode hw hs.sound.current v m₁
  have hall : ∀ v m, executeAll host fuel program (s.ready distances) ≠ .ok (.returned v) m :=
    fun v m => executeAll_ne_returned hnone v
  refine ⟨fun n u m hto => ?_, hall, ?_⟩
  · cases hresult : execute host n u m with
    | error stop m₁ => exact .inr ⟨stop, m₁, rfl⟩
    | ok x m₁ =>
      cases x with
      | normal => exact .inl ⟨m₁, rfl⟩
      | returned v => exact absurd hresult (hnone n u m v m₁ hto)
  · rw [run_of_accepted h, inOrder_iff]
    cases hresult : executeAll host fuel program (s.ready distances) with
    | error stop m => cases stop <;> simp [Verdict.ofResult]
    | ok x m =>
      cases x with
      | normal => simp [Verdict.ofResult, Machine.after]
      | returned v => exact absurd hresult (hall v m)

private def returningSource : String :=
  "funktion f() \x7b während (wahr) \x7b zurückgeben; \x7d \x7d f(); drucke wahr;"

private def returningName : Token :=
  ⟨.identifier, "f", 1⟩

private def returningProgram : List Stmt :=
  [.funDecl ⟨returningName, [], [.loop (.literal 0 (.bool true))
      (.block [.ret ⟨.keyword .zurueckgeben, "zurückgeben", 1⟩ none])]⟩,
    .expression (.call 2 (.var 1 returningName) ⟨.symbol .rightParen, ")", 1⟩ []),
    .print (.literal 3 (.bool true))]

/-- A return out of an endless loop ends the call of the function and nothing else. -/
theorem run_executes_in_order_returning :
    ∃ distances k, compile returningSource 0 = (.ok (returningProgram, distances), k) ∧
      (∀ v m, executeAll ⟨fun _ => 0, fun _ => true⟩ 20 returningProgram (start.ready distances) ≠
        .ok (.returned v) m) ∧
      InOrder ⟨fun _ => 0, fun _ => true⟩ 20 returningProgram (start.ready distances)
        (start.run ⟨fun _ => 0, fun _ => true⟩ 20 returningSource).2.machine := by
  have hcompile : compile returningSource 0 = (.ok (returningProgram, {}), 4) :=
    compile_of_ok (by decide +kernel) (by decide +kernel) rfl
  obtain ⟨-, hreturns, hcompleted⟩ :=
    run_executes_in_order .start hcompile ⟨fun _ => 0, fun _ => true⟩ 20
  exact ⟨_, _, hcompile, hreturns, hcompleted.mp (by decide +kernel)⟩

end Session

end GermanLox
