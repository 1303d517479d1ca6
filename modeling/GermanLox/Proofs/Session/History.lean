import GermanLox.Proofs.Run.Foundation
import GermanLox.Proofs.Session.Sound

/-!
# The history of a session

All the sources that a session was given, and all the calls of the evaluator that their runs have
come by. Whatever the machine of a session holds goes back to its history: its functions are code of
accepted programs, and its classes were made when the declarations of these were executed.
-/

namespace GermanLox

/-- Whether a statement has ended normally. -/
def endsNormally : EStateM.Result Stop Machine Completion → Bool
  | .ok .normal _ => true
  | _ => false

lemma eq_of_endsNormally {r : EStateM.Result Stop Machine Completion} (h : endsNormally r = true) :
    r = .ok .normal (Machine.after r) := by
  unfold endsNormally at h
  split at h
  · rfl
  · cases h

/-- The function that an expression has given. -/
def functionOf? : EStateM.Result Stop Machine Value → Option Closure
  | .ok (.closure c) _ => some c
  | _ => none

lemma eq_of_functionOf? {r : EStateM.Result Stop Machine Value} {c : Closure}
    (h : functionOf? r = some c) : r = .ok (.closure c) (Machine.after r) := by
  unfold functionOf? at h
  split at h
  · cases h
    rfl
  · cases h

namespace Session

/-- The sources that a session was given, the last one outermost. -/
inductive History where
  | start
  | run (h : History) (host : Host) (fuel : Nat) (source : String)

namespace History

def session : History → Session
  | start => Session.start
  | run h host fuel source => (h.session.run host fuel source).2

/-- The programs that were accepted. -/
def programs : History → List (List Stmt)
  | start => []
  | run h _ _ source => h.programs ++ h.session.accepted source

lemma reached (h : History) : Reached h.programs h.session := by
  induction h with
  | start => exact .start
  | run h host fuel source ih => exact ih.run host fuel source

/-- The calls of the evaluator that the runs of a session come by, and the machines that these start
on. -/
inductive ComesBy : History → Host → Nat → Task → Machine → Prop
  | now {h host fuel source program distances k n t m}
    (hcompile : compile source h.session.nextId = (.ok (program, distances), k))
    (hreach : Reaches host fuel (.executeAll program) (h.session.ready distances) n t m) :
    ComesBy (.run h host fuel source) host n t m
  | before {h host' fuel source host n t m} (hbefore : ComesBy h host n t m) :
    ComesBy (.run h host' fuel source) host n t m

/-- An expression of an accepted program by its number, with the class declaration and the method
that it stands in. -/
def StandsIn (h : History) (i : ExprId) (home : Option Home) : Prop :=
  ∃ program ∈ h.programs, (i, home) ∈ Stmt.homesAll none program

/-- A class that was made by executing its declaration. -/
def Made (h : History) (K : ClassDecl) (parent : Option Class) (c : Class) : Prop :=
  ∃ host n m, h.ComesBy host (n + 1) (.execute K.stmt) m ∧ Makes host n K m parent c

/-- What is known from a history. -/
def chronicle (h : History) : Chronicle :=
  ⟨known h.programs h.session, h.StandsIn, h.Made⟩

section Runs

variable {h : History} {host : Host} {fuel : Nat} {source : String} {program : List Stmt}
  {distances : Distances} {k : ExprId}

lemma programs_run (haccepted : Accepted source h.session.nextId program distances k) :
    (h.run host fuel source).programs = h.programs ++ [program] := by
  rw [programs, accepted_of_accepted haccepted]

lemma session_run (haccepted : Accepted source h.session.nextId program distances k) :
    (h.run host fuel source).session =
      ⟨Machine.after (executeAll host fuel program (h.session.ready distances)), k⟩ := by
  rw [session, run_of_accepted haccepted]

/-- A run does not touch the table. -/
lemma distances_run (haccepted : Accepted source h.session.nextId program distances k) :
    (h.run host fuel source).session.machine.distances = (h.session.ready distances).distances := by
  rw [session_run haccepted]
  exact ((retaining host fuel).executeAll program (h.session.ready distances)).distances

/-- What a source that is not accepted leaves. -/
lemma run_of_rejected {diagnostics : List Diagnostic}
    (hcompile : compile source h.session.nextId = (.error diagnostics, k)) :
    (h.run host fuel source).session = ⟨h.session.machine, k⟩ ∧
      (h.run host fuel source).programs = h.programs := by
  constructor
  · simp only [session, Session.run, hcompile]
  · simp only [programs, accepted, hcompile, List.append_nil]

end Runs

/-- The table grows with a further source, and nothing in it changes. -/
lemma entry_run {h : History} (host : Host) (fuel : Nat) (source : String) {i : ExprId}
    (hi : i < h.session.nextId) :
    i < (h.run host fuel source).session.nextId ∧
      (h.run host fuel source).session.machine.distances[i]? = h.session.machine.distances[i]? := by
  have hle := le_nextId_compile source h.session.nextId
  rcases hcompile : compile source h.session.nextId with ⟨outcome, k⟩
  rw [hcompile] at hle
  cases outcome with
  | error diagnostics =>
    rw [(run_of_rejected hcompile).1]
    exact ⟨Nat.lt_of_lt_of_le hi hle, rfl⟩
  | ok compiled =>
    have haccepted := compile_eq_ok_iff.mp hcompile
    rw [distances_run haccepted, session_run haccepted, Sound.ready_of_lt haccepted hi]
    exact ⟨Nat.lt_of_lt_of_le hi hle, rfl⟩

lemma mem_numbers_of_homes {program : List Stmt} {i : ExprId} {home : Option Home}
    (hi : (i, home) ∈ Stmt.homesAll none program) : i ∈ Stmt.numbersAll program := by
  rw [← Stmt.map_fst_homesAll none program]
  exact List.mem_map_of_mem hi

/-- The programs of a further source, if it has any, have new numbers, each of them once. -/
lemma accepted_numbers {h : History} {source : String} {program : List Stmt}
    (hp : program ∈ h.session.accepted source) :
    h.session.accepted source = [program] ∧ (Stmt.numbersAll program).Nodup ∧
      ∀ i ∈ Stmt.numbersAll program, h.session.nextId ≤ i ∧
        ∀ host fuel, i < (h.run host fuel source).session.nextId := by
  rcases hcompile : compile source h.session.nextId with ⟨outcome, k⟩
  cases outcome with
  | error diagnostics => simp [accepted, hcompile] at hp
  | ok compiled =>
    have haccepted := compile_eq_ok_iff.mp hcompile
    obtain rfl : program = compiled.1 := by simpa [accepted, hcompile] using hp
    refine ⟨accepted_of_accepted haccepted, haccepted.reading.account.nodup_numbers,
      fun i hi => ⟨(haccepted.mem_numbers hi).1, fun host fuel => ?_⟩⟩
    rw [session_run haccepted]
    exact (haccepted.mem_numbers hi).2

lemma lt_nextId {h : History} {program : List Stmt} (hp : program ∈ h.programs) {i : ExprId}
    (hi : i ∈ Stmt.numbersAll program) : i < h.session.nextId := by
  induction h with
  | start => cases hp
  | run h host fuel source ih =>
    rcases List.mem_append.mp hp with hp | hp
    · exact (entry_run host fuel source (ih hp)).1
    · exact ((accepted_numbers hp).2.2 i hi).2 host fuel

/-- An expression stands in one place. -/
lemma StandsIn.unique {h : History} {i : ExprId} {home home' : Option Home}
    (hi : h.StandsIn i home) (hi' : h.StandsIn i home') : home = home' := by
  induction h with
  | start =>
    obtain ⟨p, hp, -⟩ := hi
    cases hp
  | run h host fuel source ih =>
    obtain ⟨p, hp, hmem⟩ := hi
    obtain ⟨p', hp', hmem'⟩ := hi'
    have hnumber := mem_numbers_of_homes hmem
    have hnumber' := mem_numbers_of_homes hmem'
    rcases List.mem_append.mp hp with hold | hnew <;>
      rcases List.mem_append.mp hp' with hold' | hnew'
    · exact ih ⟨p, hold, hmem⟩ ⟨p', hold', hmem'⟩
    · have hlt := lt_nextId hold hnumber
      exact absurd hlt (Nat.not_lt_of_le ((accepted_numbers hnew').2.2 i hnumber').1)
    · have hlt := lt_nextId hold' hnumber'
      exact absurd hlt (Nat.not_lt_of_le ((accepted_numbers hnew).2.2 i hnumber).1)
    · obtain ⟨hone, hnodup, -⟩ := accepted_numbers hnew
      obtain rfl : p' = p := by simpa [hone] using hnew'
      rw [← Stmt.map_fst_homesAll none p'] at hnodup
      exact congrArg Prod.snd (List.inj_on_of_nodup_map hnodup hmem hmem' rfl)

/-- More is known after a further source. -/
lemma chronicle_fits (h : History) (host : Host) (fuel : Nat) (source : String) :
    h.chronicle.Fits (h.run host fuel source).chronicle := by
  have hprograms : ∀ p ∈ h.programs, p ∈ (h.run host fuel source).programs :=
    fun p hp => List.mem_append_left _ hp
  refine ⟨⟨?_, ?_, ?_⟩, ?_, ?_⟩
  · rintro t t' ⟨heq, p, hp, ht⟩
    exact ⟨heq, p, hprograms p hp, ht⟩
  · rintro i i' d ⟨heq, hi, hd⟩
    obtain ⟨hi', hd'⟩ := entry_run host fuel source hi
    exact ⟨heq, hi', hd'.trans hd⟩
  · rintro i ⟨p, hp, hi⟩
    exact ⟨p, hprograms p hp, hi⟩
  · rintro i home ⟨p, hp, hi⟩
    exact ⟨p, hprograms p hp, hi⟩
  · rintro K parent c ⟨host', n, m, hcomes, hmakes⟩
    exact ⟨host', n, m, .before hcomes, hmakes⟩

/-- A further program runs on founded ground. -/
lemma founded_ready {h : History} {w : Roles} (hw : h.session.machine.Founded h.chronicle w)
    (host : Host) (fuel : Nat) {source : String} {program : List Stmt} {distances : Distances}
    {k : ExprId} (hcompile : compile source h.session.nextId = (.ok (program, distances), k)) :
    let C := (h.run host fuel source).chronicle
    (h.session.ready distances).Founded C w ∧
      (Task.executeAll program).Founded C w (h.session.ready distances) ∧
      (Task.executeAll program).Recorded C host fuel (h.session.ready distances) := by
  intro C
  have haccepted := compile_eq_ok_iff.mp hcompile
  obtain ⟨-, hlike⟩ := h.reached.sound.before haccepted
  have hprograms : (h.run host fuel source).programs = h.programs ++ [program] :=
    programs_run haccepted
  have hmem : program ∈ (h.run host fuel source).programs := by simp [hprograms]
  have hfits : (known (h.programs ++ [program]) ⟨h.session.ready distances, k⟩).Fits C.setting := by
    refine ⟨?_, ?_, ?_⟩
    · rintro t t' ht
      rwa [← hprograms] at ht
    · rintro i i' d ⟨heq, hi, hd⟩
      refine ⟨heq, ?_, ?_⟩
      · rw [session_run haccepted]
        exact hi
      · rw [distances_run haccepted]
        exact hd
    · rintro i hi
      rwa [← hprograms] at hi
  refine ⟨⟨hw.store.widen (h.chronicle_fits host fuel source), ?_⟩, ⟨[], none, ?_, ?_⟩, ?_⟩
  · rintro i i' d ⟨-, -, hd⟩
    rwa [distances_run haccepted] at hd
  · exact ⟨⟨_, false, hfits, hlike⟩,
      haccepted.reading.formed (Source.proper_tokens source), fun p hp => ⟨program, hmem, hp⟩⟩
  · have hcurrent : (h.session.ready distances).current = Store.globals := h.reached.sound.current
    rw [hcurrent]
    exact .globals
  · exact fun n K m parent c hreach hmakes => ⟨host, n, m, .now hcompile hreach, hmakes⟩

end History

/-- At first there is nothing but the built-in functions. -/
lemma founded_initial (C : Chronicle) : Machine.initial.store.Founded C fun _ => .scope := by
  refine ⟨?_, rfl, rfl, ?_, ?_, ?_⟩
  · simp [Machine.initial, Store.newFrame, Store.define, Store.globals]
  · intro f n v hv
    obtain ⟨-, rfl⟩ := Machine.eq_of_local?_initial hv
    trivial
  · intro i o ho
    simp [Machine.initial, Store.newFrame, Store.define] at ho
  · intro f _ n hn
    obtain ⟨v, hv⟩ := Option.isSome_iff_exists.mp hn
    obtain ⟨rfl, -⟩ := Machine.eq_of_local?_initial hv
    decide

namespace History

/-- The machine of a session is founded on its history. -/
theorem founded (h : History) : ∃ w, h.session.machine.Founded h.chronicle w := by
  induction h with
  | start =>
    refine ⟨_, founded_initial _, ?_⟩
    rintro i i' d ⟨-, -, hd⟩
    exact hd
  | run h host fuel source ih =>
    obtain ⟨w, hw⟩ := ih
    rcases hcompile : compile source h.session.nextId with ⟨outcome, k⟩
    cases outcome with
    | error diagnostics =>
      refine ⟨w, ?_, ?_⟩
      · rw [(run_of_rejected hcompile).1]
        exact hw.store.widen (h.chronicle_fits host fuel source)
      · rintro i i' d ⟨-, -, hd⟩
        exact hd
    | ok compiled =>
      obtain ⟨hready, ht, hrec⟩ := founded_ready hw host fuel hcompile
      obtain ⟨w₁, hleaves⟩ := (ht.ends hready hrec).after
      refine ⟨w₁, ?_⟩
      rw [session_run (compile_eq_ok_iff.mp hcompile)]
      exact hleaves.founded

/-- What is founded at a call that a session comes by, and what of it the session keeps. -/
structure Sustains (h : History) (C : Chronicle) (w : Roles) (host : Host) (n : Nat) (t : Task)
    (m : Machine) : Prop where
  fits : C.Fits h.chronicle
  machine : m.Founded C w
  task : t.Founded C w m
  recorded : t.Recorded C host n m
  keeps : (Machine.after (t.run host n m)).store.KeepsReceivers h.session.machine.store

/-- What a session keeps it keeps when it is given a further source. -/
lemma keepsReceivers_run (h : History) (host : Host) (fuel : Nat) (source : String) :
    h.session.machine.store.KeepsReceivers (h.run host fuel source).session.machine.store := by
  rcases hcompile : compile source h.session.nextId with ⟨outcome, k⟩
  cases outcome with
  | error diagnostics =>
    rw [(run_of_rejected hcompile).1]
    exact .refl _
  | ok compiled =>
    obtain ⟨w, hw⟩ := h.founded
    obtain ⟨hready, ht, hrec⟩ := founded_ready hw host fuel hcompile
    rw [session_run (compile_eq_ok_iff.mp hcompile)]
    exact (ht.ends hready hrec).keepsReceivers hready

/-- Wherever a session comes by, code and machine are founded on its history. -/
theorem ComesBy.sustains {h : History} {host : Host} {n : Nat} {t : Task} {m : Machine}
    (hcomes : h.ComesBy host n t m) : ∃ C w, h.Sustains C w host n t m := by
  induction hcomes with
  | @now h host fuel source program distances k n t m hcompile hreach =>
    obtain ⟨w, hw⟩ := h.founded
    obtain ⟨hready, ht, hrec⟩ := founded_ready hw host fuel hcompile
    obtain ⟨⟨w₁, -, hm, ht₁⟩, hkeeps⟩ := hreach.founded hready ht hrec
    refine ⟨_, w₁, .refl _, hm, ht₁, hreach.recorded hrec, ?_⟩
    rw [session_run (compile_eq_ok_iff.mp hcompile)]
    exact hkeeps
  | @before h host' fuel source host n t m _ ih =>
    obtain ⟨C, w, hs⟩ := ih
    exact ⟨C, w, hs.fits.trans (h.chronicle_fits host' fuel source), hs.machine, hs.task,
      hs.recorded, hs.keeps.trans (h.keepsReceivers_run host' fuel source)⟩

/-- A class has the methods that its declaration has last, and inherits from its superclass. -/
lemma Made.methods {h : History} {K : ClassDecl} {parent : Option Class} {c : Class}
    (hmade : h.Made K parent c) : c.ancestors = Class.lineageOf parent ∧
      ∀ n : String, c.own.methods[n]?.map Closure.decl = K.method? n := by
  obtain ⟨host, n, m, hcomes, hmakes⟩ := hmade
  obtain ⟨C, w, hs⟩ := hcomes.sustains
  obtain ⟨Γ, home, Γ₁, -, hnested⟩ := hs.task
  exact hmakes.methods (hnested.lt hs.machine.store.globals)

end History

end Session

end GermanLox
