import GermanLox.Proofs.Run.Congruence
import GermanLox.Proofs.Sequencing

/-!
# Runs that go on

With more fuel, a run that has ended ends just so. What was written before a run stands before what
the run writes. And statements after statements are run on the machine that these leave, with the
fuel that is left.
-/

namespace GermanLox

/-! ### More fuel -/

/-- Where an action ends, the other one does just the same. -/
def Eval.EndsAs {α : Type} (x x' : Eval α) : Prop :=
  ∀ m, (∀ m₁, x m ≠ .error .outOfFuel m₁) → x' m = x m

lemma Eval.EndsAs.refl {α : Type} (x : Eval α) : x.EndsAs x :=
  fun _ _ => rfl

lemma Eval.EndsAs.bind {α β : Type} {x x' : Eval α} {f f' : α → Eval β} (hx : x.EndsAs x')
    (hf : ∀ a, (f a).EndsAs (f' a)) : (x >>= f).EndsAs (x' >>= f') := by
  intro m hends
  change ∀ m₁, EStateM.bind x f m ≠ .error .outOfFuel m₁ at hends
  change EStateM.bind x' f' m = EStateM.bind x f m
  unfold EStateM.bind at hends ⊢
  cases hresult : x m with
  | ok a m₁ =>
    rw [hresult] at hends
    rw [hx m (by simp [hresult]), hresult]
    exact hf a m₁ hends
  | error stop m₁ =>
    rw [hresult] at hends
    rw [hx m (by simpa [hresult] using hends), hresult]

lemma Eval.EndsAs.within {α : Type} {x x' : Eval α} (hx : x.EndsAs x') (frame : FrameId) :
    (Eval.within frame x).EndsAs (Eval.within frame x') := by
  intro m hends
  have hinner : ∀ m₁, x { m with current := frame } ≠ .error .outOfFuel m₁ := by
    intro m₁ hresult
    refine hends { m₁ with current := m.current } ?_
    simp only [Eval.within, hresult]
  simp only [Eval.within, hx _ hinner]

lemma congruent_endsAs : Congruent fun _ x x' => x.EndsAs x' where
  pure := fun _ => .refl _
  bind := Eval.EndsAs.bind
  within := fun frame hx => hx.within frame
  fail := fun _ _ => .refl _
  freshIdentity := .refl _
  inspect := fun _ => .refl _
  define := fun _ _ _ => .refl _
  setField := fun _ _ _ => .refl _
  currentFrame := .refl _
  newFrame := fun _ => .refl _
  newInstance := fun _ => .refl _
  distance? := fun _ => .refl _
  getAt? := fun _ _ => .refl _

/-- A run that ends with some fuel ends the same way with more. -/
theorem endsAs_of_le (host : Host) {n n' : Nat} (h : n ≤ n') :
    Related (fun _ x x' => x.EndsAs x') host host n n' :=
  congruent_endsAs.related_of_le ⟨fun _ => .refl _, .refl _⟩
    (fun _ m hends => absurd rfl (hends m)) h

/-! ### Earlier output -/

/-- The machine with a text before all it has written. -/
def Machine.prepend (text : String) (m : Machine) : Machine :=
  { m with output := text ++ m.output }

/-- The result with a text before all that was written. -/
def prependResult {α : Type} (text : String) :
    EStateM.Result Stop Machine α → EStateM.Result Stop Machine α
  | .ok a m => .ok a (m.prepend text)
  | .error stop m => .error stop (m.prepend text)

/-- An action that adds to the output and does not look at it. -/
def Eval.Appends {α : Type} (x : Eval α) : Prop :=
  ∀ text m, x (m.prepend text) = prependResult text (x m)

lemma Eval.Appends.bind {α β : Type} {x : Eval α} {f : α → Eval β} (hx : x.Appends)
    (hf : ∀ a, (f a).Appends) : (x >>= f).Appends := by
  intro text m
  change EStateM.bind x f (m.prepend text) = prependResult text (EStateM.bind x f m)
  unfold EStateM.bind
  rw [hx text m]
  cases x m with
  | ok a m₁ => exact hf a text m₁
  | error stop m₁ => rfl

lemma Eval.Appends.within {α : Type} {x : Eval α} (hx : x.Appends) (frame : FrameId) :
    (Eval.within frame x).Appends := by
  intro text m
  have hinner := hx text { m with current := frame }
  change x { m.prepend text with current := frame } = _ at hinner
  simp only [Eval.within, hinner]
  cases x { m with current := frame } with
  | ok a m₁ => rfl
  | error stop m₁ => rfl

lemma Eval.appends_print (host : Host) (v : Value) : (Eval.print host v).Appends := by
  intro text m
  by_cases haccepts : host.accepts m.writes = true
  · simp only [Eval.print, prependResult, Machine.prepend, haccepts, if_true, String.append_assoc]
  · simp only [Eval.print, prependResult, Machine.prepend, haccepts, if_false, Bool.false_eq_true]

lemma congruent_appends : Congruent fun _ x _ => x.Appends where
  pure := fun _ _ _ => rfl
  bind := Eval.Appends.bind
  within := fun frame hx => hx.within frame
  fail := fun _ _ _ _ => rfl
  freshIdentity := fun _ _ => rfl
  inspect := fun _ _ _ => rfl
  define := fun _ _ _ _ _ => rfl
  setField := fun _ _ _ _ _ => rfl
  currentFrame := fun _ _ => rfl
  newFrame := fun _ _ _ => rfl
  newInstance := fun _ _ _ => rfl
  distance? := fun _ _ _ => rfl
  getAt? := fun _ _ _ _ => rfl

/-- What was written before a run stands before what it writes. -/
theorem appends (host : Host) (n : Nat) : Related (fun _ x _ => x.Appends) host host n n :=
  congruent_appends.related ⟨Eval.appends_print host, fun _ _ => rfl⟩ (fun _ _ => rfl) n

/-! ### More statements -/

/-- Statements after others, on the machine and with the fuel that these leave. -/
theorem executeAll_append (host : Host) (fuel : Nat) (ss us : List Stmt) :
    executeAll host fuel (ss ++ us) = executeAll host fuel ss >>= fun
      | .normal => executeAll host (fuel - ss.length) us
      | .returned v => pure (.returned v) := by
  induction ss generalizing fuel with
  | nil =>
    cases fuel with
    | zero => rfl
    | succ fuel => rfl
  | cons s ss ih =>
    cases fuel with
    | zero => rfl
    | succ fuel =>
      rw [List.length_cons, Nat.add_sub_add_right, List.cons_append, executeAll, executeAll,
        bind_assoc]
      congr 1
      funext x
      cases x with
      | normal => exact ih fuel
      | returned v => rfl

end GermanLox
