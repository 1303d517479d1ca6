import GermanLox.Proofs.Equality
import GermanLox.Proofs.Run.Discipline
import GermanLox.Proofs.Session.Sound

/-!
# One table for all programs

The programs of a session share one table of distances, and each adds its own to it. No two
expressions have one number, whatever went wrong with the sources between them, so that nothing in
the table is ever overwritten: each program goes on with the distances that it was accepted with.
-/

namespace GermanLox

/-- The table has the distances that the programs were accepted with. -/
def Distances.Knows (table : Distances) (programs : List (List Stmt)) : Prop :=
  ∀ program ∈ programs, ∃ distances, resolve program = .ok distances ∧
    ∀ i ∈ Stmt.numbersAll program, table[i]? = distances[i]?

namespace Distances.Knows

variable {table table' : Distances} {programs : List (List Stmt)}

lemma nil (table : Distances) : table.Knows [] :=
  fun _ h => nomatch h

/-- A table that says the same of all numbers below a bound knows the same programs. -/
lemma of_below {bound : ExprId} (h : table.Knows programs)
    (hbelow : ∀ i ∈ programs.flatMap Stmt.numbersAll, i < bound)
    (hsame : ∀ i : ExprId, i < bound → table'[i]? = table[i]?) : table'.Knows programs := by
  intro program hprogram
  obtain ⟨distances, hresolve, hdistances⟩ := h program hprogram
  refine ⟨distances, hresolve, fun i hi => ?_⟩
  have hlt := hbelow i (List.mem_flatMap.mpr ⟨program, hprogram, hi⟩)
  exact (hsame i hlt).trans (hdistances i hi)

lemma append_singleton (h : table.Knows programs) {program : List Stmt} {distances : Distances}
    (hresolve : resolve program = .ok distances)
    (hdistances : ∀ i ∈ Stmt.numbersAll program, table[i]? = distances[i]?) :
    table.Knows (programs ++ [program]) := by
  intro other hother
  rcases List.mem_append.mp hother with hother | hother
  · exact h other hother
  · obtain rfl := List.mem_singleton.mp hother
    exact ⟨distances, hresolve, hdistances⟩

end Distances.Knows

namespace Session

/-- A source with the fuel that it is run with. -/
structure Input where
  source : String
  fuel : Nat

/-- The session after some further sources. -/
def after (host : Host) : List Input → Session → Session
  | [], s => s
  | input :: inputs, s => after host inputs (s.run host input.fuel input.source).2

/-- The numbers of the programs are given away, each to one expression, and the table knows their
distances. -/
structure Numbered (programs : List (List Stmt)) (s : Session) : Prop where
  below : ∀ i ∈ programs.flatMap Stmt.numbersAll, i < s.nextId
  nodup : (programs.flatMap Stmt.numbersAll).Nodup
  knows : s.machine.distances.Knows programs

namespace Numbered

variable {programs : List (List Stmt)} {s : Session} {source : String} {program : List Stmt}
  {distances : Distances} {k : ExprId}

lemma start : Numbered [] Session.start where
  below := fun _ h => nomatch h
  nodup := List.nodup_nil
  knows := .nil _

lemma below_append (hn : Numbered programs s) (h : Accepted source s.nextId program distances k) :
    ∀ i ∈ (programs ++ [program]).flatMap Stmt.numbersAll, i < k := by
  intro i hi
  rw [List.flatMap_append, List.flatMap_singleton] at hi
  rcases List.mem_append.mp hi with hi | hi
  · exact Nat.lt_of_lt_of_le (hn.below i hi) h.le
  · exact (h.mem_numbers hi).2

/-- The numbers of a further program are all new. -/
lemma nodup_append (hn : Numbered programs s) (h : Accepted source s.nextId program distances k) :
    ((programs ++ [program]).flatMap Stmt.numbersAll).Nodup := by
  rw [List.flatMap_append, List.flatMap_singleton]
  refine List.nodup_append.mpr ⟨hn.nodup, h.reading.account.nodup_numbers, ?_⟩
  rintro i hi j hj rfl
  exact Nat.not_le_of_lt (hn.below i hi) (h.mem_numbers hj).1

/-- With the distances of a further program, the table knows that one, too. -/
lemma knows_ready (hn : Numbered programs s) (hs : Sound programs s)
    (h : Accepted source s.nextId program distances k) :
    (s.ready distances).distances.Knows (programs ++ [program]) := by
  have hearlier := hn.knows.of_below hn.below fun i hi => Sound.ready_of_lt h hi
  refine hearlier.append_singleton h.resolved fun i hi => ?_
  exact hs.ready_of_le (h.mem_numbers hi).1

lemma run (hn : Numbered programs s) (hs : Sound programs s) (host : Host) (fuel : Nat)
    (source : String) :
    Numbered (programs ++ s.accepted source) (s.run host fuel source).2 := by
  rcases hcompile : compile source s.nextId with ⟨outcome, k⟩
  cases outcome with
  | error diagnostics =>
    have hle := le_nextId_compile source s.nextId
    rw [hcompile] at hle
    simp only [accepted, Session.run, hcompile, List.append_nil]
    exact ⟨fun i hi => Nat.lt_of_lt_of_le (hn.below i hi) hle, hn.nodup, hn.knows⟩
  | ok compiled =>
    obtain ⟨program, distances⟩ := compiled
    have h := compile_eq_ok_iff.mp hcompile
    rw [accepted_of_accepted h, run_of_accepted h]
    refine ⟨hn.below_append h, hn.nodup_append h, ?_⟩
    have hretains := (retaining host fuel).executeAll program (s.ready distances)
    rw [hretains.distances]
    exact hn.knows_ready hs h

end Numbered

lemma Reached.numbered {programs : List (List Stmt)} {s : Session} (h : Reached programs s) :
    Numbered programs s := by
  induction h with
  | start => exact .start
  | run h host fuel source ih => exact ih.run h.sound host fuel source

/-- Whatever is run next, the programs before it stay. -/
lemma Reached.after {programs : List (List Stmt)} {s : Session} (h : Reached programs s)
    (host : Host) (inputs : List Input) :
    ∃ later, Reached (programs ++ later) (s.after host inputs) := by
  induction inputs generalizing programs s with
  | nil => exact ⟨[], by simpa [Session.after] using h⟩
  | cons input inputs ih =>
    obtain ⟨later, hlater⟩ := ih (h.run host input.fuel input.source)
    rw [List.append_assoc] at hlater
    exact ⟨_, hlater⟩

/-- Wherever a run comes by, the table is as at its start, for all numbers given so far. -/
lemma Sound.distances_reached {programs : List (List Stmt)} {s : Session} (hs : Sound programs s)
    {source : String} {program : List Stmt} {distances : Distances} {k : ExprId}
    (h : Accepted source s.nextId program distances k) {host : Host} {fuel n : Nat} {t : Task}
    {m : Machine} (hreach : Reaches host fuel (.executeAll program) (s.ready distances) n t m) :
    ∀ i : ExprId, i < k → m.distances[i]? = (s.ready distances).distances[i]? := by
  intro i hi
  obtain ⟨⟨w, hw⟩, hcode⟩ := hs.before h
  have hsound : (Task.executeAll program).Sound
      (known (programs ++ [program]) ⟨s.ready distances, k⟩) (s.ready distances) :=
    ⟨w, hw, _, false, [], .refl _, hcode, hs.current⟩
  obtain ⟨w₁, hagree, -⟩ := hreach.sound hsound
  exact hagree.left i i _ ⟨rfl, hi, rfl⟩

/-- In a session that has come about, no two expressions of the programs that were run have one
number. The table of a further program has entries for numbers of that program only, none of which
the table of the session has an entry for, and wherever the run of that program comes by, the table
knows all programs with their distances. Whatever is run after that, the table of the session knows
the programs so far. -/
theorem distances_persist {programs : List (List Stmt)} {s : Session} (hs : Reached programs s) :
    (programs.flatMap Stmt.numbersAll).Nodup ∧
      (∀ source program distances k, compile source s.nextId = (.ok (program, distances), k) →
        ((programs ++ [program]).flatMap Stmt.numbersAll).Nodup ∧
        (∀ i ∈ distances, i ∈ Stmt.numbersAll program ∧ i ∉ s.machine.distances) ∧
        ∀ host fuel n t m, Reaches host fuel (.executeAll program) (s.ready distances) n t m →
          m.distances.Knows (programs ++ [program])) ∧
      ∀ host inputs, (s.after host inputs).machine.distances.Knows programs := by
  have hnumbered := hs.numbered
  refine ⟨hnumbered.nodup, ?_, ?_⟩
  · intro source program distances k hcompile
    have h := compile_eq_ok_iff.mp hcompile
    refine ⟨hnumbered.nodup_append h, fun i hi => ?_, ?_⟩
    · have hnumber : i ∈ Stmt.numbersAll program := by
        by_contra hnot
        rw [Std.TreeMap.mem_iff_isSome_getElem?, distances_of_not_mem h.resolved hnot] at hi
        cases hi
      refine ⟨hnumber, fun hold => ?_⟩
      rw [Std.TreeMap.mem_iff_isSome_getElem?, hs.sound.fresh i (h.mem_numbers hnumber).1] at hold
      cases hold
    · intro host fuel n t m hreach
      exact (hnumbered.knows_ready hs.sound h).of_below (hnumbered.below_append h)
        (hs.sound.distances_reached h hreach)
  · intro host inputs program hprogram
    obtain ⟨later, hlater⟩ := hs.after host inputs
    exact hlater.numbered.knows program (List.mem_append_left _ hprogram)

private def openHost : Host :=
  ⟨fun _ => 0, fun _ => true⟩

private def shownLocal (i : ExprId) (name : String) : List Stmt :=
  [.block [.varDecl ⟨.identifier, name, 1⟩ none, .print (.var i ⟨.identifier, name, 1⟩)]]

/-- A source that is run, one that is rejected and uses up the number 1, and one more: its table is
for the number 2, and the first program keeps its distance. -/
theorem distances_persist_afterSlip :
    ∃ s distances, Reached [shownLocal 0 "a"] s ∧
      compile "{ var c; drucke c; }" s.nextId = (.ok (shownLocal 2 "c", distances), 3) ∧
      2 ∈ distances ∧ (∀ i ∈ distances, i ∉ s.machine.distances) ∧
      ∀ host inputs, (s.after host inputs).machine.distances[0]? = some 0 := by
  have hfirst : compile "{ var a; drucke a; }" start.nextId =
      (.ok (shownLocal 0 "a", ({} : Distances).insert 0 0), 1) :=
    compile_of_ok (by decide +kernel) (by decide +kernel) rfl
  have hslip : compile "drucke (b;" 1 =
      (.error [.syntactic 1 .groupingEndExpected], 2) := by
    have hlexical : (scan "drucke (b;").filterMap Item.diagnostic? = [] := by decide +kernel
    have hparse : parse ((scan "drucke (b;").filterMap Item.token?) 1 =
        ⟨.error [.syntactic 1 .groupingEndExpected], 2⟩ := by decide +kernel
    simp only [compile, hlexical, hparse, List.nil_append]
  have hreached := Reached.start.run openHost 9 "{ var a; drucke a; }"
  have hnext : (start.run openHost 9 "{ var a; drucke a; }").2.nextId = 1 := by decide +kernel
  rw [accepted_of_accepted (compile_eq_ok_iff.mp hfirst), List.nil_append] at hreached
  generalize (start.run openHost 9 "{ var a; drucke a; }").2 = s₁ at hreached hnext
  rw [← hnext] at hslip
  have hrun := hreached.run openHost 9 "drucke (b;"
  have hrejected : s₁.accepted "drucke (b;" = [] ∧
      (s₁.run openHost 9 "drucke (b;").2.nextId = 2 := by
    simp only [accepted, run, hslip, and_self]
  rw [hrejected.1, List.append_nil] at hrun
  have hthird : compile "{ var c; drucke c; }" (s₁.run openHost 9 "drucke (b;").2.nextId =
      (.ok (shownLocal 2 "c", ({} : Distances).insert 2 0), 3) := by
    rw [hrejected.2]
    exact compile_of_ok (by decide +kernel) (by decide +kernel) rfl
  obtain ⟨-, hmerge, hlater⟩ := distances_persist hrun
  obtain ⟨-, hkeys, -⟩ := hmerge _ _ _ _ hthird
  refine ⟨_, _, hrun, hthird, by decide +kernel, fun i hi => (hkeys i hi).2, fun host inputs => ?_⟩
  obtain ⟨distances, hresolve, hdistances⟩ := hlater host inputs _ (List.mem_singleton_self _)
  obtain rfl : ({} : Distances).insert 0 0 = distances :=
    Except.ok.inj ((compile_eq_ok_iff.mp hfirst).resolved.symm.trans hresolve)
  exact (hdistances 0 (by decide +kernel)).trans (by decide +kernel)

end Session

end GermanLox
