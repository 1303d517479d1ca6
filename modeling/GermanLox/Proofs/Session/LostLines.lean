import GermanLox.Proofs.Session.Rejected

/-!
# Lines that the output does not take

A program does not hear its output. Two hosts with the same clock may take different lines: on
machines that differ in what was written, and in nothing else, every action ends in the same way and
leaves machines that differ so. A session therefore goes as it would if no line were ever lost.
-/

namespace GermanLox

namespace Machine

/-- The machine apart from what the output has taken. -/
def mute (m : Machine) : Machine :=
  { m with output := "" }

lemma exists_output_of_mute_eq {m m' : Machine} (h : m'.mute = m.mute) :
    ∃ text, m' = { m with output := text } := by
  refine ⟨m'.output, ?_⟩
  calc
    m' = { m'.mute with output := m'.output } := rfl
    _ = { m with output := m'.output } := by rw [h]; rfl

end Machine

/-- How an action ends, and the machine apart from what the output has taken. -/
def muteResult {α : Type} : EStateM.Result Stop Machine α → EStateM.Result Stop Machine α
  | .ok a m => .ok a m.mute
  | .error stop m => .error stop m.mute

lemma muteResult_eq_ok {α : Type} {r : EStateM.Result Stop Machine α} {a : α} {m : Machine}
    (h : muteResult r = .ok a m.mute) : ∃ text, r = .ok a { m with output := text } := by
  cases r with
  | error stop m' => cases h
  | ok a' m' =>
    obtain ⟨rfl, hm⟩ := EStateM.Result.ok.inj h
    obtain ⟨text, rfl⟩ := Machine.exists_output_of_mute_eq hm
    exact ⟨text, rfl⟩

lemma muteResult_eq_error {α : Type} {r : EStateM.Result Stop Machine α} {stop : Stop}
    {m : Machine} (h : muteResult r = .error stop m.mute) :
    ∃ text, r = .error stop { m with output := text } := by
  cases r with
  | ok a' m' => cases h
  | error stop' m' =>
    obtain ⟨rfl, hm⟩ := EStateM.Result.error.inj h
    obtain ⟨text, rfl⟩ := Machine.exists_output_of_mute_eq hm
    exact ⟨text, rfl⟩

/-- Actions that end in the same way, whatever was written before. -/
def Eval.Deaf {α : Type} (x x' : Eval α) : Prop :=
  ∀ m text, muteResult (x' { m with output := text }) = muteResult (x m)

namespace Eval.Deaf

variable {α β : Type} {x x' : Eval α}

lemma bind {f f' : α → Eval β} (hx : x.Deaf x') (hf : ∀ a, (f a).Deaf (f' a)) :
    (x >>= f).Deaf (x' >>= f') := by
  intro m text
  have hfirst := hx m text
  cases hresult : x m with
  | ok a m₁ =>
    rw [hresult] at hfirst
    obtain ⟨text₁, hresult'⟩ := muteResult_eq_ok hfirst
    rw [EStateM.bind_of_ok hresult, EStateM.bind_of_ok hresult']
    exact hf a m₁ text₁
  | error stop m₁ =>
    rw [hresult] at hfirst
    obtain ⟨text₁, hresult'⟩ := muteResult_eq_error hfirst
    rw [EStateM.bind_of_error hresult, EStateM.bind_of_error hresult']
    rfl

lemma within (hx : x.Deaf x') (frame : FrameId) :
    (Eval.within frame x).Deaf (Eval.within frame x') := by
  intro m text
  have hinner := hx { m with current := frame } text
  cases hresult : x { m with current := frame } with
  | ok a m₁ =>
    rw [hresult] at hinner
    obtain ⟨text₁, hresult'⟩ := muteResult_eq_ok hinner
    simp only [Eval.within, hresult, hresult']
    rfl
  | error stop m₁ =>
    rw [hresult] at hinner
    obtain ⟨text₁, hresult'⟩ := muteResult_eq_error hinner
    simp only [Eval.within, hresult, hresult']
    rfl

end Eval.Deaf

lemma congruent_deaf : Congruent fun _ x x' => x.Deaf x' where
  pure := fun _ _ _ => rfl
  bind := Eval.Deaf.bind
  within := fun frame hx => hx.within frame
  fail := fun _ _ _ _ => rfl
  freshIdentity := fun _ _ => rfl
  inspect := fun _ _ _ => rfl
  define := fun _ _ _ _ _ => rfl
  setField := fun _ _ _ _ _ => rfl
  currentFrame := fun _ _ => rfl
  newFrame := fun _ _ _ => rfl
  newInstance := fun _ _ _ => rfl
  distance? := fun _ _ _ => rfl
  getAt? := fun _ _ _ _ => rfl

/-- Whether a line is taken shows in the output only. -/
lemma relatedHosts_deaf {host host' : Host} (hclock : host'.clock = host.clock) :
    RelatedHosts (fun _ x x' => x.Deaf x') host host' where
  print := fun _ _ _ => rfl
  readClock := by
    intro m text
    simp only [Eval.readClock, hclock]
    rfl

/-- Code runs in the same way on hosts with the same clock. -/
theorem deaf {host host' : Host} (hclock : host'.clock = host.clock) (n : Nat) :
    Related (fun _ x x' => x.Deaf x') host host' n n :=
  congruent_deaf.related (relatedHosts_deaf hclock) (fun _ _ => rfl) n

/-- The host with an output that takes every line. -/
def Host.reliable (host : Host) : Host :=
  { host with accepts := fun _ => true }

lemma Verdict.ofResult_muteResult {α : Type} (r : EStateM.Result Stop Machine α) :
    Verdict.ofResult (muteResult r) = .ofResult r := by
  cases r with
  | ok a m => rfl
  | error stop m => cases stop <;> rfl

lemma Machine.mute_after {α : Type} (r : EStateM.Result Stop Machine α) :
    (Machine.after r).mute = Machine.after (muteResult r) := by
  cases r <;> rfl

namespace Session

/-- The session apart from what the output has taken of the last source. -/
def mute (s : Session) : Session :=
  ⟨s.machine.mute, s.nextId⟩

variable {host host' : Host} {s s' : Session}

/-- A source runs in the same way on hosts with the same clock. -/
lemma run_mute (hclock : host'.clock = host.clock) (h : s'.mute = s.mute) (fuel : Nat)
    (source : String) :
    (s'.run host' fuel source).1.verdict = (s.run host fuel source).1.verdict ∧
      (s'.run host' fuel source).2.mute = (s.run host fuel source).2.mute := by
  obtain ⟨hmachine, hnext⟩ : s'.machine.mute = s.machine.mute ∧ s'.nextId = s.nextId :=
    Session.mk.inj h
  rcases hcompile : compile source s.nextId with ⟨outcome, k⟩
  have hcompile' := hcompile
  rw [← hnext] at hcompile'
  cases outcome with
  | error diagnostics =>
    rw [run_of_rejected hcompile, run_of_rejected hcompile']
    exact ⟨rfl, congrArg (Session.mk · k) hmachine⟩
  | ok compiled =>
    obtain ⟨program, distances⟩ := compiled
    have haccepted := compile_eq_ok_iff.mp hcompile
    have haccepted' := compile_eq_ok_iff.mp hcompile'
    have hready : s'.ready distances = s.ready distances := by
      obtain ⟨text, htext⟩ := Machine.exists_output_of_mute_eq hmachine
      rw [ready, htext]
      rfl
    have hruns : muteResult (executeAll host' fuel program (s.ready distances)) =
        muteResult (executeAll host fuel program (s.ready distances)) :=
      (deaf hclock fuel).executeAll program (s.ready distances) ""
    rw [run_of_accepted haccepted, run_of_accepted haccepted', hready]
    constructor
    · rw [← Verdict.ofResult_muteResult, hruns, Verdict.ofResult_muteResult]
    · simp only [mute, Machine.mute_after, hruns]

lemma after_mute (hclock : host'.clock = host.clock) (h : s'.mute = s.mute)
    (inputs : List Input) : (s'.after host' inputs).mute = (s.after host inputs).mute := by
  induction inputs generalizing s s' with
  | nil => exact h
  | cons input inputs ih => exact ih (run_mute hclock h input.fuel input.source).2

/-- Whatever lines of a session are lost: a further source ends as it does where none was ever lost,
in the same diagnostics or at the same fault, and it leaves the same session, with all frames and
instances, apart from what the output has taken. -/
theorem run_hears_no_output (host : Host) (inputs : List Input) (input : Input) :
    ((start.after host inputs).run host input.fuel input.source).1.verdict =
        ((start.after host.reliable inputs).run host.reliable input.fuel input.source).1.verdict ∧
      ((start.after host inputs).run host input.fuel input.source).2.mute =
        ((start.after host.reliable inputs).run host.reliable input.fuel input.source).2.mute := by
  have hclock : host.clock = host.reliable.clock := rfl
  exact run_mute hclock (after_mute hclock rfl inputs) input.fuel input.source

end Session

end GermanLox
