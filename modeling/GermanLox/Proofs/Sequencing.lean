import Mathlib.Tactic.Common

/-!
# Sequencing

How a computation in sequence can have come to its result, and how it goes on from one.
-/

namespace EStateM

variable {ε σ α β : Type}

lemma bind_eq_ok {x : EStateM ε σ α} {f : α → EStateM ε σ β} {s s'' : σ} {b : β}
    (h : (x >>= f) s = .ok b s'') : ∃ a s', x s = .ok a s' ∧ f a s' = .ok b s'' := by
  change EStateM.bind x f s = _ at h
  unfold EStateM.bind at h
  cases hx : x s with
  | ok a s' => exact ⟨a, s', rfl, by simpa [hx] using h⟩
  | error e s' => simp [hx] at h

lemma bind_of_ok {x : EStateM ε σ α} {s s' : σ} {a : α} (h : x s = .ok a s')
    (f : α → EStateM ε σ β) : (x >>= f) s = f a s' := by
  change EStateM.bind x f s = _
  simp only [EStateM.bind, h]

lemma bind_of_error {x : EStateM ε σ α} {s s' : σ} {e : ε} (h : x s = .error e s')
    (f : α → EStateM ε σ β) : (x >>= f) s = .error e s' := by
  change EStateM.bind x f s = _
  simp only [EStateM.bind, h]

lemma bind_eq_of_ok {x : EStateM ε σ α} {f : α → EStateM ε σ β} {s s' : σ} {a : α}
    {r : Result ε σ β} (h : x s = .ok a s') (hf : f a s' = r) : (x >>= f) s = r :=
  (bind_of_ok h f).trans hf

lemma map_eq_ok {f : α → β} {x : EStateM ε σ α} {s s' : σ} {b : β}
    (h : (f <$> x) s = .ok b s') : ∃ a, x s = .ok a s' ∧ f a = b := by
  change EStateM.map f x s = _ at h
  unfold EStateM.map at h
  cases hx : x s with
  | ok a s₁ =>
    simp only [hx, EStateM.Result.ok.injEq] at h
    exact ⟨a, by rw [h.2], h.1⟩
  | error e s₁ => simp [hx] at h

lemma map_of_ok {x : EStateM ε σ α} {s s' : σ} {a : α} (h : x s = .ok a s') (f : α → β) :
    (f <$> x) s = .ok (f a) s' := by
  change EStateM.map f x s = _
  simp only [EStateM.map, h]

lemma pure_eq_ok {a b : α} {s s' : σ} (h : (pure a : EStateM ε σ α) s = .ok b s') :
    a = b ∧ s = s' := by
  cases h
  exact ⟨rfl, rfl⟩

end EStateM

/-! ### Computations that need not have a result -/

namespace ExceptT

variable {ε σ α β : Type}

lemma bind_of_ok {x : ExceptT ε (StateT σ Option) α} {s s' : σ} {a : α}
    (h : x s = some (.ok a, s')) (f : α → ExceptT ε (StateT σ Option) β) :
    (x >>= f) s = f a s' := by
  change (x s).bind _ = _
  rw [h]
  rfl

lemma bind_of_error {x : ExceptT ε (StateT σ Option) α} {s s' : σ} {e : ε}
    (h : x s = some (.error e, s')) (f : α → ExceptT ε (StateT σ Option) β) :
    (x >>= f) s = some (.error e, s') := by
  change (x s).bind _ = _
  rw [h]
  rfl

end ExceptT
