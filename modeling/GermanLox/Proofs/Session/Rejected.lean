import GermanLox.Proofs.Grammar.Kinds
import GermanLox.Proofs.Scope.Renumbered
import GermanLox.Proofs.Session.Tables

/-!
# Sources that leave no trace

A source that is rejected only uses up numbers. A session without it gives other numbers to the
programs after it and so has another table, but numbers are all that its runs differ in: it prints
the same for every source that is left and ends in the same way.
-/

namespace GermanLox

/-- A source that is accepted when its numbers start further up is accepted when they do not. -/
lemma Accepted.lower {source : String} {n : Nat} {k k' : ExprId} {program' : List Stmt}
    {distances' : Distances} (h : Accepted source (n + k) program' distances' k') :
    ∃ program distances k₁, Accepted source k program distances k₁ ∧
      program' = Stmt.relabelAll (n + ·) (fun t => t) program ∧ k' = n + k₁ ∧
      ∀ i : ExprId, distances'[n + i]? = distances[i]? := by
  obtain ⟨program, k₁, hread, -⟩ := (h.reading.tree rfl).reading k
  have hmoved := hread.relabel (n := n) (g := fun t => t) (fun _ => rfl) rfl
  rw [List.map_id'] at hmoved
  obtain ⟨rfl, rfl⟩ := h.reading.unique (fun t ht => (Source.mem_tokens ht).1) hmoved
  obtain ⟨hclean, rfl⟩ := resolve_eq_ok_iff.mp h.resolved
  have hnumber : Function.Injective fun i : ExprId => n + i := fun _ _ => Nat.add_left_cancel
  obtain ⟨hdiagnostics, hdistances⟩ := Resolver.resolve_relabel hnumber program
  refine ⟨program, _, k₁, ⟨h.faultless, hread, resolve_eq_ok_iff.mpr ⟨?_, rfl⟩⟩, rfl, rfl,
    hdistances⟩
  rw [← hdiagnostics, hclean]

/-- Where tokens alike are equal, a run prints the same and ends in the same way. -/
lemma OutcomeLike.report_eq {α : Type} {E : Setting} {w : Labels} {m : Machine}
    {Q : Labels → Store → α → α → Prop} {r r' : EStateM.Result Stop Machine α}
    (htokens : ∀ t t', E.tokens t t' → t' = t) (h : OutcomeLike E w m Q r r') :
    (⟨(Machine.after r').output, .ofResult r'⟩ : Report) =
      ⟨(Machine.after r).output, .ofResult r⟩ := by
  cases h with
  | ok _ _ hagree _ =>
    simp only [Machine.after, Verdict.ofResult, hagree.output]
  | @error _ _ _ _ stop _ _ hagree hstop =>
    obtain rfl := hstop.eq htokens
    cases stop <;> simp only [Machine.after, Verdict.ofResult, hagree.output]

/-- Whether the source was wrong as a text. -/
def Report.isRejected (report : Report) : Bool :=
  match report.verdict with
  | .rejected _ => true
  | _ => false

namespace Session

/-- What a session answers to sources, one after another. -/
def transcript (host : Host) : List Input → Session → List (Input × Report)
  | [], _ => []
  | input :: inputs, s =>
    (input, (s.run host input.fuel input.source).1) ::
      transcript host inputs (s.run host input.fuel input.source).2

section Runs

variable {s : Session} {source : String} {diagnostics : List Diagnostic} {k : ExprId}

lemma run_of_rejected (h : compile source s.nextId = (.error diagnostics, k)) (host : Host)
    (fuel : Nat) :
    s.run host fuel source = (⟨"", .rejected diagnostics⟩, { s with nextId := k }) := by
  simp only [run, h]

lemma isRejected_of_accepted {program : List Stmt} {distances : Distances}
    (h : Accepted source s.nextId program distances k) (host : Host) (fuel : Nat) :
    (s.run host fuel source).1.isRejected = false := by
  rw [run_of_accepted h]
  cases executeAll host fuel program (s.ready distances) with
  | ok => rfl
  | error stop => cases stop <;> rfl

end Runs

/-- Numbers of the same expression in two sessions: their tables say the same of them. -/
def paired (s s' : Session) : Setting where
  tokens t t' := t' = t
  entry i i' d := i < s.nextId ∧ i' < s'.nextId ∧ s.machine.distances[i]? = d ∧
    s'.machine.distances[i']? = d
  own _ := True

lemma paired_left (s s' : Session) :
    ∀ i i' d, (paired s s').entry i i' d → s.machine.distances[i]? = d := by
  rintro i i' d ⟨-, -, hd, -⟩
  exact hd

lemma paired_right (s s' : Session) :
    ∀ i i' d, (paired s s').entry i i' d → s'.machine.distances[i']? = d := by
  rintro i i' d ⟨-, -, -, hd⟩
  exact hd

/-- Sessions alike, the second of which has given away more numbers. -/
structure Alike (s s' : Session) : Prop where
  le : s.nextId ≤ s'.nextId
  agree : ∃ w, Agree (paired s s') w s.machine s'.machine

namespace Alike

variable {programs programs' : List (List Stmt)} {s s' : Session}

lemma refl_start : Alike start start :=
  ⟨Nat.le_refl _, fun _ => .names (Equiv.refl String), storeLike_initial _, rfl,
    paired_left start start, paired_right start start, rfl, rfl, rfl, rfl⟩

/-- Giving away numbers changes nothing. -/
lemma skip (h : Alike s s') {k : ExprId} (hk : s'.nextId ≤ k) :
    Alike s { s' with nextId := k } := by
  obtain ⟨w, hw⟩ := h.agree
  have hfits : (paired s s').Fits (paired s { s' with nextId := k }) := by
    refine ⟨fun _ _ ht => ht, ?_, fun _ _ => trivial⟩
    rintro i i' d ⟨hi, hi', hd⟩
    exact ⟨hi, Nat.lt_of_lt_of_le hi' hk, hd⟩
  exact ⟨Nat.le_trans h.le hk, w, hw.store.widen hfits, hw.current, paired_left _ _,
    paired_right s { s' with nextId := k }, hw.nextIdentity, hw.readings, hw.writes, hw.output⟩

/-- Before the runs of a program, with its distances in both tables. -/
lemma ready (h : Alike s s') {source : String} {program program' : List Stmt}
    {distances distances' : Distances} {k k' : ExprId}
    (haccepted : Accepted source s.nextId program distances k)
    (haccepted' : Accepted source s'.nextId program' distances' k') :
    ∃ w, Agree (paired ⟨s.ready distances, k⟩ ⟨s'.ready distances', k'⟩) w (s.ready distances)
      (s'.ready distances') := by
  obtain ⟨w, hw⟩ := h.agree
  have hfits : (paired s s').Fits (paired ⟨s.ready distances, k⟩ ⟨s'.ready distances', k'⟩) := by
    refine ⟨fun _ _ ht => ht, ?_, fun _ _ => trivial⟩
    rintro i i' d ⟨hi, hi', hd, hd'⟩
    refine ⟨Nat.lt_of_lt_of_le hi haccepted.le, Nat.lt_of_lt_of_le hi' haccepted'.le, ?_, ?_⟩
    · exact (Sound.ready_of_lt haccepted hi).trans hd
    · exact (Sound.ready_of_lt haccepted' hi').trans hd'
  exact ⟨w, hw.store.widen hfits, hw.current, paired_left ⟨s.ready distances, k⟩ _,
    paired_right _ ⟨s'.ready distances', k'⟩, hw.nextIdentity, hw.readings, hw.writes, rfl⟩

/-- A source that the second session runs is run by the first one in the same way. -/
lemma run (h : Alike s s') (hs : Sound programs s) (hs' : Sound programs' s') {source : String}
    {program' : List Stmt} {distances' : Distances} {k' : ExprId}
    (haccepted' : Accepted source s'.nextId program' distances' k') (host : Host) (fuel : Nat) :
    (s.run host fuel source).1 = (s'.run host fuel source).1 ∧
      Alike (s.run host fuel source).2 (s'.run host fuel source).2 := by
  obtain ⟨n, hn⟩ := Nat.exists_eq_add_of_le' h.le
  have hlower := haccepted'
  rw [hn] at hlower
  obtain ⟨program, distances, k, haccepted, rfl, rfl, hdistances⟩ := hlower.lower
  obtain ⟨w, hready⟩ := h.ready haccepted haccepted'
  obtain ⟨-, -, hlike⟩ := copy_accepted (r := {}) haccepted.reading (Source.proper_tokens source)
    haccepted.resolved (n + ·) (fun _ _ => Nat.add_left_cancel) (fun _ => True) (fun t => t)
    (fun _ => rfl) rfl rfl rfl fun _ _ => by simp
  have hcode : StmtsLike (paired ⟨s.ready distances, k⟩ ⟨s'.ready distances', n + k⟩) false []
      program (Stmt.relabelAll (n + ·) (fun t => t) program) := by
    refine hlike _ (fun _ _ => rfl) (fun i hi => ?_) (fun _ _ => trivial)
    obtain ⟨hle, hlt⟩ := haccepted.mem_numbers hi
    have hle' : s'.nextId ≤ n + i := hn ▸ Nat.add_le_add_left hle n
    exact ⟨hlt, Nat.add_lt_add_left hlt n, hs.ready_of_le hle,
      (hs'.ready_of_le hle').trans (hdistances i)⟩
  have hruns := (runsAlike _ host fuel).executeAll (.refl _) hcode hready hs.current
  rw [run_of_accepted haccepted, run_of_accepted haccepted']
  refine ⟨(hruns.report_eq fun _ _ ht => ht).symm, Nat.le_add_left k n, ?_⟩
  obtain ⟨⟨w₁, hafter⟩, -⟩ := hruns.machines
  have htable := ((retaining host fuel).executeAll program (s.ready distances)).distances
  have htable' := ((retaining host fuel).executeAll (Stmt.relabelAll (n + ·) (fun t => t) program)
    (s'.ready distances')).distances
  refine ⟨w₁, ?_⟩
  simpa only [paired, htable, htable'] using hafter

end Alike

/-- Without the sources that are rejected by the second session, the first one answers as that does
to the other sources. -/
lemma Reached.transcript_eq {programs programs' : List (List Stmt)} {s s' : Session}
    (hs : Reached programs s) (hs' : Reached programs' s') (h : Alike s s') (host : Host)
    (inputs : List Input) :
    s.transcript host (((s'.transcript host inputs).filter (!·.2.isRejected)).map Prod.fst) =
      (s'.transcript host inputs).filter (!·.2.isRejected) := by
  induction inputs generalizing programs programs' s s' with
  | nil => rfl
  | cons input inputs ih =>
    have hreached' := hs'.run host input.fuel input.source
    rcases hcompile : compile input.source s'.nextId with ⟨outcome, k⟩
    cases outcome with
    | error diagnostics =>
      have hle := le_nextId_compile input.source s'.nextId
      rw [hcompile] at hle
      rw [run_of_rejected hcompile] at hreached'
      simp only [transcript, run_of_rejected hcompile]
      rw [List.filter_cons_of_neg (by simp [Report.isRejected])]
      exact ih hs hreached' (h.skip hle)
    | ok compiled =>
      have haccepted' := compile_eq_ok_iff.mp hcompile
      obtain ⟨hreport, halike⟩ := h.run hs.sound hs'.sound haccepted' host input.fuel
      have hkept := isRejected_of_accepted haccepted' host input.fuel
      have hrest := ih (hs.run host input.fuel input.source) hreached' halike
      simp only [transcript]
      rw [List.filter_cons_of_pos (by simp [hkept]), List.map_cons, transcript, hreport, hrest]

/-- A session to which the sources that are rejected are not given answers to every other source as
the session does that they are given to: it prints the same and ends in the same way. -/
theorem transcript_without_rejected (host : Host) (inputs : List Input) :
    start.transcript host
        (((start.transcript host inputs).filter (!·.2.isRejected)).map Prod.fst) =
      (start.transcript host inputs).filter (!·.2.isRejected) :=
  Reached.start.transcript_eq .start .refl_start host inputs

end Session

end GermanLox
