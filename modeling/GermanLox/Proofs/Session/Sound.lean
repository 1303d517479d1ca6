import GermanLox.Proofs.Reading.Numbers
import GermanLox.Proofs.Run.Congruence
import GermanLox.Proofs.Run.Simulation
import GermanLox.Proofs.Session.Accepted

/-!
# Sessions that have come about

Whatever sources were run before, and however their runs ended, the machine of a session is like
itself: all code in its store was accepted at some time, in scopes that line up with its frames, and
the table still has the distances that were found for it.
-/

namespace GermanLox

/-- How the run of a program ends. -/
def Verdict.ofResult {α : Type} : EStateM.Result Stop Machine α → Verdict
  | .ok _ _ => .completed
  | .error (.fault f) _ => .failed f
  | .error .outOfFuel _ => .outOfFuel

lemma OutcomeLike.machines {α : Type} {E : Setting} {w : Labels} {m : Machine}
    {Q : Labels → Store → α → α → Prop} {r r' : EStateM.Result Stop Machine α}
    (h : OutcomeLike E w m Q r r') :
    (∃ w₁, Agree E w₁ (Machine.after r) (Machine.after r')) ∧
      (Machine.after r).current = m.current := by
  cases h with
  | ok _ hcurrent hagree => exact ⟨⟨_, hagree⟩, hcurrent⟩
  | error _ hcurrent hagree => exact ⟨⟨_, hagree⟩, hcurrent⟩

namespace Session

/-- The programs of a source that is given next: its own, or none if it is not accepted. -/
def accepted (source : String) (s : Session) : List (List Stmt) :=
  match (compile source s.nextId).1 with
  | .ok (program, _) => [program]
  | .error _ => []

/-- A session that has come about, with the programs that were accepted in it. -/
inductive Reached : List (List Stmt) → Session → Prop
  | start : Reached [] Session.start
  | run {programs : List (List Stmt)} {s : Session} (h : Reached programs s) (host : Host)
    (fuel : Nat) (source : String) :
    Reached (programs ++ s.accepted source) (s.run host fuel source).2

/-- The machine that a program with these distances is run on. -/
def ready (s : Session) (distances : Distances) : Machine :=
  { s.machine with output := "", distances := s.machine.distances ∪ distances }

section Runs

variable {s : Session} {source : String} {program : List Stmt} {distances : Distances} {k : ExprId}

lemma accepted_of_accepted (h : Accepted source s.nextId program distances k) :
    s.accepted source = [program] := by
  rw [accepted, compile_eq_ok_iff.mpr h]

lemma run_of_accepted (h : Accepted source s.nextId program distances k) (host : Host)
    (fuel : Nat) :
    s.run host fuel source =
      (⟨(Machine.after (executeAll host fuel program (s.ready distances))).output,
        .ofResult (executeAll host fuel program (s.ready distances))⟩,
        ⟨Machine.after (executeAll host fuel program (s.ready distances)), k⟩) := by
  have hinterpret : interpret host fuel distances program { s.machine with output := "" } =
      EStateM.bind (executeAll host fuel program) (fun _ => pure ()) (s.ready distances) := rfl
  simp only [run, compile_eq_ok_iff.mpr h, hinterpret, EStateM.bind]
  cases executeAll host fuel program (s.ready distances) with
  | ok x m => rfl
  | error stop m => cases stop <;> rfl

/-- Compiling does not give numbers back, either. -/
lemma le_nextId_compile (source : String) (k : ExprId) : k ≤ (compile source k).2 := by
  have h := le_nextId_parse ((scan source).filterMap Item.token?) k
  simp only [compile]
  split
  · exact h
  · split
    · split <;> exact h
    · exact h

end Runs

/-- What is known after some programs: their tokens and own assignments, and the table for the
numbers given so far. -/
def known (programs : List (List Stmt)) (s : Session) : Setting where
  tokens t t' := t' = t ∧ ∃ program ∈ programs, t ∈ Stmt.tokensAll program
  entry i i' d := i' = i ∧ i < s.nextId ∧ s.machine.distances[i]? = d
  own i := ∃ program ∈ programs, i ∈ Stmt.ownAssignsAll program

/-- The machine is like itself, at the top level, and knows nothing of numbers to come. -/
structure Sound (programs : List (List Stmt)) (s : Session) : Prop where
  alike : ∃ w, Agree (known programs s) w s.machine s.machine
  current : s.machine.current = Store.globals
  fresh : ∀ i : ExprId, s.nextId ≤ i → s.machine.distances[i]? = none

end Session

/-- At first there is nothing but the built-in functions. -/
lemma Machine.eq_of_local?_initial {f : FrameId} {n : String} {v : Value}
    (hv : Machine.initial.store.local? f n = some v) :
    n = Builtin.clock.name ∧ v = .builtin .clock := by
  have hdefine := Store.local?_define (({} : Store).newFrame none).2 Store.globals
    Builtin.clock.name (.builtin .clock) f n (by simp [Store.newFrame, Store.globals])
  change Machine.initial.store.local? f n = _ at hdefine
  rw [hdefine] at hv
  split at hv
  · rename_i heq
    exact ⟨heq.2.symm, (Option.some.inj hv).symm⟩
  · rw [Store.local?_newFrame] at hv
    simp [Store.local?] at hv

/-- They are like themselves. -/
lemma storeLike_initial (E : Setting) :
    StoreLike E (fun _ => .names (Equiv.refl String)) Machine.initial.store
      Machine.initial.store := by
  refine ⟨rfl, ?_, rfl, rfl, fun _ => rfl, fun f n => ?_, fun f v h => (by cases h),
    fun f v h => (by cases h), fun i => ?_⟩
  · simp [Machine.initial, Store.newFrame, Store.define, Store.globals]
  · change Option.Rel _ (Machine.initial.store.local? f n) (Machine.initial.store.local? f n)
    cases hv : Machine.initial.store.local? f n with
    | none => exact .none
    | some v =>
      obtain ⟨-, rfl⟩ := Machine.eq_of_local?_initial hv
      exact .some .builtin
  · have hnone : Machine.initial.store.instances[i]? = none := by
      simp [Machine.initial, Store.newFrame, Store.define]
    rw [hnone]
    exact .none

namespace Session.Sound

variable {programs : List (List Stmt)} {s : Session} {source : String} {program : List Stmt}
  {distances : Distances} {k : ExprId}

lemma start : Sound [] Session.start := by
  refine ⟨⟨fun _ => .names (Equiv.refl String), storeLike_initial _, rfl, ?_, ?_, rfl, rfl, rfl,
    rfl⟩, rfl, fun i _ => ?_⟩
  · rintro i i' d ⟨-, -, hd⟩
    exact hd
  · rintro i i' d ⟨rfl, -, hd⟩
    exact hd
  · simp [Session.start, Machine.initial]

/-- The table with the distances of a further program. -/
lemma ready_of_lt (h : Accepted source s.nextId program distances k) {i : ExprId}
    (hi : i < s.nextId) : (s.ready distances).distances[i]? = s.machine.distances[i]? := by
  rw [ready, Std.TreeMap.getElem?_union, h.distance_eq_none (.inl hi), Option.none_or]

lemma ready_of_le (hs : Sound programs s) {i : ExprId} (hi : s.nextId ≤ i) :
    (s.ready distances).distances[i]? = distances[i]? := by
  rw [ready, Std.TreeMap.getElem?_union, hs.fresh i hi, Option.or_none]

/-- Before the run of an accepted program, the machine and the program are like themselves. -/
lemma before (hs : Sound programs s) (h : Accepted source s.nextId program distances k) :
    (∃ w, Agree (known (programs ++ [program]) ⟨s.ready distances, k⟩) w (s.ready distances)
        (s.ready distances)) ∧
      StmtsLike (known (programs ++ [program]) ⟨s.ready distances, k⟩) false []
        program program := by
  have hfits : (known programs s).Fits (known (programs ++ [program]) ⟨s.ready distances, k⟩) := by
    refine ⟨?_, ?_, ?_⟩
    · rintro t t' ⟨rfl, p, hp, ht⟩
      exact ⟨rfl, p, List.mem_append_left _ hp, ht⟩
    · rintro i i' d ⟨rfl, hi, rfl⟩
      exact ⟨rfl, Nat.lt_of_lt_of_le hi h.le, ready_of_lt h hi⟩
    · rintro i ⟨p, hp, hi⟩
      exact ⟨p, List.mem_append_left _ hp, hi⟩
  constructor
  · obtain ⟨w, hw⟩ := hs.alike
    refine ⟨w, hw.store.widen hfits, rfl, ?_, ?_, rfl, rfl, rfl, rfl⟩
    · rintro i i' d ⟨-, -, hd⟩
      exact hd
    · rintro i i' d ⟨rfl, -, hd⟩
      exact hd
  · refine h.like (fun t ht => ⟨rfl, program, by simp, ht⟩) (fun i hi => ?_)
      (fun i hi => ⟨program, by simp, hi⟩)
    obtain ⟨hle, hlt⟩ := h.mem_numbers hi
    exact ⟨rfl, hlt, hs.ready_of_le hle⟩

end Session.Sound

/-- A run does not touch the table. -/
lemma executeAll_distances {E σ : Setting} {w : Labels} {m : Machine} {Γ : Layers} {inside : Bool}
    {ss : List Stmt} (hE : ∀ i i' d, E.entry i i' d → i' = i) (hfits : σ.Fits E)
    (hcode : StmtsLike σ inside Γ ss ss) (h : Agree E w m m)
    (halign : Aligned w m.store m.current Γ) (host : Host) (fuel : Nat) (i : ExprId) :
    (Machine.after (executeAll host fuel ss m)).distances[i]? = m.distances[i]? := by
  -- The run is alike as well if all that the table says is to be kept.
  let E' : Setting := { E with entry := fun i i' d => i' = i ∧ m.distances[i]? = d }
  have hE' : E.Fits E' :=
    ⟨fun _ _ ht => ht, fun i i' d hd => ⟨hE i i' d hd, h.left i i' d hd⟩, fun _ hi => hi⟩
  have h' : Agree E' w m m := by
    refine ⟨h.store.widen hE', rfl, ?_, ?_, rfl, rfl, rfl, rfl⟩
    · rintro i i' d ⟨-, hd⟩
      exact hd
    · rintro i i' d ⟨rfl, hd⟩
      exact hd
  obtain ⟨⟨w₁, hafter⟩, -⟩ :=
    ((runsAlike E' host fuel).executeAll (hfits.trans hE') hcode h' halign).machines
  exact hafter.left i i _ ⟨rfl, rfl⟩

namespace Session

lemma Sound.run {programs : List (List Stmt)} {s : Session} (hs : Sound programs s) (host : Host)
    (fuel : Nat) (source : String) :
    Sound (programs ++ s.accepted source) (s.run host fuel source).2 := by
  have hle := le_nextId_compile source s.nextId
  rcases hcompile : compile source s.nextId with ⟨outcome, k⟩
  rw [hcompile] at hle
  cases outcome with
  | error diagnostics =>
    simp only [accepted, Session.run, hcompile, List.append_nil]
    obtain ⟨w, hw⟩ := hs.alike
    refine ⟨⟨w, hw.store.widen ⟨fun _ _ ht => ht, ?_, fun _ hi => hi⟩, rfl, ?_, ?_, rfl, rfl, rfl,
      rfl⟩, hs.current, fun i hi => hs.fresh i (Nat.le_trans hle hi)⟩
    · rintro i i' d ⟨rfl, hi, hd⟩
      exact ⟨rfl, Nat.lt_of_lt_of_le hi hle, hd⟩
    · rintro i i' d ⟨-, -, hd⟩
      exact hd
    · rintro i i' d ⟨rfl, -, hd⟩
      exact hd
  | ok compiled =>
    obtain ⟨program, distances⟩ := compiled
    have h := compile_eq_ok_iff.mp hcompile
    rw [accepted_of_accepted h, run_of_accepted h]
    obtain ⟨⟨w, hw⟩, hcode⟩ := hs.before h
    have halign : Aligned w (s.ready distances).store (s.ready distances).current [] := hs.current
    have htable := executeAll_distances (E := known (programs ++ [program]) ⟨s.ready distances, k⟩)
      (fun _ _ _ hd => hd.1) (.refl _) hcode hw halign host fuel
    obtain ⟨⟨w₁, hafter⟩, hcurrent⟩ :=
      ((runsAlike _ host fuel).executeAll (.refl _) hcode hw halign).machines
    refine ⟨⟨w₁, hafter.store.widen ⟨fun _ _ ht => ht, ?_, fun _ hi => hi⟩, rfl, ?_, ?_, rfl, rfl,
      rfl, rfl⟩, hcurrent.trans hs.current, fun i hi => ?_⟩
    · rintro i i' d ⟨heq, hi, hd⟩
      exact ⟨heq, hi, (htable i).trans hd⟩
    · rintro i i' d ⟨-, -, hd⟩
      exact hd
    · rintro i i' d ⟨rfl, -, hd⟩
      exact hd
    · rw [htable, hs.ready_of_le (Nat.le_trans hle hi)]
      exact h.distance_eq_none (.inr hi)

/-- Every session that has come about is sound. -/
theorem Reached.sound {programs : List (List Stmt)} {s : Session} (h : Reached programs s) :
    Sound programs s := by
  induction h with
  | start => exact .start
  | run _ host fuel source ih => exact ih.run host fuel source

end Session

end GermanLox
