import GermanLox.Proofs.Scope.Declared
import GermanLox.Proofs.Scope.Renumbered
import Mathlib.Data.List.Induction

/-!
# One resolver for many programs

A resolver that has walked over programs, with faults or without, is as good as new: it has closed
all scopes and left all functions and classes. All that it has kept is what it recorded in the
programs with faults since the last one without, and that goes into the table of the next program
without faults where that program has no entry of its own.
-/

namespace GermanLox

/-- What a table says of a number. -/
def Distances.entry (table : Distances) (i : ExprId) : Option Nat :=
  table[i]?

namespace Resolver

/-- The resolver after programs, one after another. -/
def after (programs : List (List Stmt)) (r : Resolver) : Resolver :=
  programs.foldl (fun r program => (r.resolve program).2) r

/-- What a walk over a program on its own records, with faults or without. -/
def recorded (program : List Stmt) : Distances :=
  (stmts program {}).distances

/-- Whether a program on its own has faults. -/
def isFaulty (program : List Stmt) : Bool :=
  match GermanLox.resolve program with
  | .error _ => true
  | .ok _ => false

/-- What was recorded in the programs with faults since the last one without, later over earlier. -/
def leftover (programs : List (List Stmt)) : Distances :=
  (programs.reverse.takeWhile isFaulty).foldr (fun program earlier => earlier ∪ recorded program) {}

lemma isFaulty_iff (program : List Stmt) :
    isFaulty program = true ↔ (stmts program {}).diagnostics ≠ [] := by
  rw [isFaulty]
  cases h : GermanLox.resolve program with
  | error diagnostics =>
    obtain ⟨hdiagnostics, hne⟩ := resolve_eq_error_iff.mp h
    simpa [hdiagnostics] using hne
  | ok distances =>
    obtain ⟨hclean, -⟩ := resolve_eq_ok_iff.mp h
    simp [hclean]

lemma leftover_append_of_faulty (programs : List (List Stmt)) {program : List Stmt}
    (h : isFaulty program = true) :
    leftover (programs ++ [program]) = leftover programs ∪ recorded program := by
  rw [leftover, List.reverse_append, List.reverse_singleton, List.singleton_append,
    List.takeWhile_cons_of_pos h, List.foldr_cons, leftover]

lemma leftover_append_of_not_faulty (programs : List (List Stmt)) {program : List Stmt}
    (h : ¬ isFaulty program = true) : leftover (programs ++ [program]) = {} := by
  rw [leftover, List.reverse_append, List.reverse_singleton, List.singleton_append,
    List.takeWhile_cons_of_neg h, List.foldr_nil]

/-- As good as new, but for a table. -/
structure Rests (table : Distances) (r : Resolver) : Prop where
  scopes : r.scopes = []
  functionContext : r.functionContext = .outside
  classContext : r.classContext = .outside
  diagnostics : r.diagnostics = []
  distances : ∀ i : ExprId, r.distances[i]? = table[i]?

namespace Rests

variable {table : Distances} {r : Resolver}

/-- A walk finds the faults that it would find on its own, and records its distances over the
table. -/
lemma stmts (h : Rests table r) (program : List Stmt) :
    (Resolver.stmts program r).diagnostics = (Resolver.stmts program {}).diagnostics ∧
      Rests (table ∪ recorded program) { Resolver.stmts program r with diagnostics := [] } := by
  have hstart : Parallel id table {} r :=
    ⟨h.scopes, h.functionContext, h.classContext, h.diagnostics, fun i => by simp [h.distances]⟩
  have hwalk := stmts_parallel Function.injective_id program hstart
  have hsame : Stmt.relabelAll id (fun t => t) program = program := Stmt.relabelAll_id program
  rw [hsame] at hwalk
  obtain ⟨_, hadds⟩ := exists_adds_stmts program r
  obtain ⟨hfunction, hclass⟩ := Prod.mk.inj (stmts_context program r)
  refine ⟨hwalk.diagnostics, hadds.isNil.mpr h.scopes, hfunction.trans h.functionContext,
    hclass.trans h.classContext, rfl, fun i => ?_⟩
  rw [Std.TreeMap.getElem?_union]
  exact hwalk.distances i

/-- The resolver answers as a new one does, with the table under the new table, and keeps what is
left over. -/
lemma resolve {programs : List (List Stmt)} (h : Rests (leftover programs) r)
    (program : List Stmt) :
    (r.resolve program).1.map Distances.entry =
        (GermanLox.resolve program).map (fun table => (leftover programs ∪ table).entry) ∧
      Rests (leftover (programs ++ [program])) (r.resolve program).2 := by
  obtain ⟨hdiagnostics, hrests⟩ := h.stmts program
  by_cases hclean : (Resolver.stmts program {}).diagnostics = []
  · have hnot : ¬ isFaulty program = true := by rwa [isFaulty_iff, not_not]
    rw [resolve_eq_ok_iff.mpr ⟨hclean, rfl⟩, leftover_append_of_not_faulty _ hnot]
    simp only [Resolver.resolve, hdiagnostics, hclean, List.isEmpty_nil, if_true]
    refine ⟨congrArg Except.ok (funext hrests.distances), ?_⟩
    exact ⟨hrests.scopes, hrests.functionContext, hrests.classContext, rfl, fun _ => rfl⟩
  · have hfaulty := (isFaulty_iff program).mpr hclean
    have hempty : (Resolver.stmts program {}).diagnostics.isEmpty = false := by simpa using hclean
    rw [resolve_eq_error_iff.mpr ⟨rfl, hclean⟩, leftover_append_of_faulty _ hfaulty]
    simp only [Resolver.resolve, hdiagnostics, hempty, Bool.false_eq_true, if_false]
    exact ⟨rfl, hrests⟩

end Rests

lemma rests_after (programs : List (List Stmt)) :
    Rests (leftover programs) (after programs {}) := by
  induction programs using List.reverseRecOn with
  | nil => exact ⟨rfl, rfl, rfl, rfl, fun _ => rfl⟩
  | append_singleton programs program ih =>
    rw [after, List.foldl_append]
    exact (ih.resolve program).2

/-- A resolver that was given programs, whatever faults they had, has no scope open and is in no
function and no class. It rejects a further program if and only if a new resolver does, with the
same diagnostics, and otherwise hands out the table of a new resolver over what is left over from
the programs with faults since the last one without. -/
theorem resolve_after (programs : List (List Stmt)) (program : List Stmt) :
    (after programs {}).scopes = [] ∧ (after programs {}).functionContext = .outside ∧
      (after programs {}).classContext = .outside ∧
      ((after programs {}).resolve program).1.map Distances.entry =
        (GermanLox.resolve program).map fun table => (leftover programs ∪ table).entry := by
  have h := rests_after programs
  exact ⟨h.scopes, h.functionContext, h.classContext, (h.resolve program).1⟩

end Resolver
end GermanLox
