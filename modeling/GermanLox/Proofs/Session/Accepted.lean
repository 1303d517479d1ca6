import GermanLox.Proofs.Reading.Programs
import GermanLox.Proofs.Reading.Relabelled
import GermanLox.Proofs.Scope.Lockstep.Programs
import GermanLox.Proofs.Source.Tokens
import GermanLox.Session
import Mathlib.Data.Fintype.EquivFin

/-!
# Accepted sources

A source is accepted if its characters, its grammar and its names are all in order. Where its
numbers start and what tokens it is written with does not count, as long as kinds and lexemes are
the same; and an accepted program is like each of its copies.
-/

namespace GermanLox

/-- A source with its program, numbered from `k` up to, but not with, `k'`. -/
structure Accepted (source : String) (k : ExprId) (program : List Stmt) (distances : Distances)
    (k' : ExprId) : Prop where
  faultless : (scan source).filterMap Item.diagnostic? = []
  reading : Reading.Declarations k (Source.tokens source) program k' []
  resolved : resolve program = .ok distances

lemma Session.compile_of_ok {source : String} {k k' : ExprId} {program : List Stmt}
    {distances : Distances} (hlexical : (scan source).filterMap Item.diagnostic? = [])
    (hparse : parse ((scan source).filterMap Item.token?) k = ⟨.ok program, k'⟩)
    (hresolve : resolve program = .ok distances) :
    compile source k = (.ok (program, distances), k') := by
  simp only [compile, hparse, hlexical, List.isEmpty_nil, if_true, hresolve]

lemma Session.compile_eq_ok_iff {source : String} {k k' : ExprId} {program : List Stmt}
    {distances : Distances} :
    compile source k = (.ok (program, distances), k') ↔
      Accepted source k program distances k' := by
  have hparse : ∀ {program : List Stmt} {k' : ExprId},
      parse ((scan source).filterMap Item.token?) k = ⟨.ok program, k'⟩ ↔
        Reading.Declarations k (Source.tokens source) program k' [] := parse_eq_ok_iff
  constructor
  · intro h
    simp only [compile] at h
    split at h
    · cases h
    · rename_i other hparsed
      split at h
      · rename_i hlexical
        split at h
        · cases h
        · rename_i hresolve
          cases h
          refine ⟨List.isEmpty_iff.mp hlexical, hparse.mp ?_, hresolve⟩
          rw [← hparsed]
      · cases h
  · rintro ⟨hlexical, hread, hresolve⟩
    exact compile_of_ok hlexical (hparse.mpr hread) hresolve

namespace Respelling

/-- A copy in which nothing is renamed. -/
def copy (number : ExprId → ExprId) (counts : ExprId → Prop) (right : Token → Token)
    (old new : String) : Respelling :=
  ⟨fun t => t, right, number, counts, fun _ => False, old, new⟩

/-- Any name that does not occur will do. -/
lemma exists_copy {number : ExprId → ExprId} (hnumber : Function.Injective number)
    (counts : ExprId → Prop) {right : Token → Token}
    (hright : ∀ t, (right t).lexeme = t.lexeme) (tokens : List Token) :
    ∃ old new, (copy number counts right old new).Proper ∧
      ∀ t ∈ tokens, ∀ q, (copy number counts right old new).Covers (t, q) := by
  obtain ⟨new, hnew⟩ := Infinite.exists_notMem_finset
    (thisName :: superName :: tokens.map Token.lexeme).toFinset
  obtain ⟨old, hold⟩ := Infinite.exists_notMem_finset [new, thisName, superName].toFinset
  simp only [List.mem_toFinset, List.mem_cons, List.mem_map, not_or] at hnew hold
  have hnone : ∀ q, ¬ (copy number counts right old new).Renames q := by
    rintro q ⟨_, _, h⟩
    exact h
  refine ⟨old, new, ⟨hnumber, fun _ h => h.elim, hold.1, hold.2.1, hold.2.2.1, hnew.1, hnew.2.1⟩,
    fun t ht q => ⟨rfl, ?_, fun h => (hnone q h).elim, fun _ => hright t⟩⟩
  exact fun heq => hnew.2.2 ⟨t, ht, heq⟩

end Respelling

/-- A copy of an accepted program is accepted, too, wherever it starts at the top level, and is like
the program. -/
theorem copy_accepted {k k' : ExprId} {ts : List Token} {program : List Stmt}
    {distances : Distances} (hread : Reading.Declarations k ts program k' [])
    (hproper : ∀ t ∈ ts, t.Proper) (hresolve : resolve program = .ok distances)
    (number : ExprId → ExprId) (hnumber : Function.Injective number) (counts : ExprId → Prop)
    (right : Token → Token) (hright : ∀ t, (right t).lexeme = t.lexeme) {r : Resolver}
    (hscopes : r.scopes = []) (hclean : r.diagnostics = [])
    (hcontext : r.context = (.outside, .outside))
    (hfresh : ∀ i : ExprId, counts i → r.distances[number i]? = none) :
    (Resolver.stmts (Stmt.relabelAll number right program) r).diagnostics = [] ∧
      (∀ i : ExprId, counts i →
        (Resolver.stmts (Stmt.relabelAll number right program) r).distances[number i]? =
          distances[i]?) ∧
      ∀ σ : Setting, (∀ t ∈ Stmt.tokensAll program, σ.tokens t (right t)) →
        (∀ i ∈ Stmt.numbersAll program, σ.entry i (number i) distances[i]?) →
        (∀ i ∈ Stmt.ownAssignsAll program, σ.own i) →
        StmtsLike σ false [] program (Stmt.relabelAll number right program) := by
  obtain ⟨hnone, rfl⟩ := resolve_eq_ok_iff.mp hresolve
  have hformed := hread.formed hproper
  obtain ⟨old, new, hρ, hcovers⟩ := Respelling.exists_copy hnumber counts hright
    (Stmt.tokensAll program)
  have hsame : Stmt.relabelAll id (Respelling.copy number counts right old new).left program =
      program := Stmt.relabelAll_id program
  have hstart : (Respelling.copy number counts right old new).Matches Bindings.none [] {} r :=
    Respelling.matches_top rfl hscopes rfl hclean
      (fun i hi => (hfresh i hi).trans (by simp)) hcontext
  have hstep := Respelling.program_lockstep hρ hformed (by rwa [hsame])
    (fun o ho => hcovers o.1 (Stmt.mem_tokensAll_of_occurrence ho) o.2)
    hread.account.nodup_numbers hstart (by rwa [hsame])
  rw [hsame] at hstep
  obtain ⟨hdiagnostics, hdistances, hlike⟩ := hstep
  exact ⟨hdiagnostics, hdistances, fun σ htokens hentry hown => hlike σ ⟨htokens, hentry, hown⟩⟩

/-- Only the expressions of a program have distances. -/
lemma distances_of_not_mem {program : List Stmt} {distances : Distances}
    (h : resolve program = .ok distances) {i : ExprId} (hi : i ∉ Stmt.numbersAll program) :
    distances[i]? = none := by
  obtain ⟨-, rfl⟩ := resolve_eq_ok_iff.mp h
  rw [Resolver.stmts_distances program hi]
  simp

namespace Accepted

variable {source : String} {k k' : ExprId} {program : List Stmt} {distances : Distances}

lemma le (h : Accepted source k program distances k') : k ≤ k' :=
  h.reading.account.le

lemma mem_numbers (h : Accepted source k program distances k') {i : ExprId}
    (hi : i ∈ Stmt.numbersAll program) : k ≤ i ∧ i < k' :=
  h.reading.account.mem_numbers hi

lemma distance_eq_none (h : Accepted source k program distances k') {i : ExprId}
    (hi : i < k ∨ k' ≤ i) : distances[i]? = none := by
  refine distances_of_not_mem h.resolved fun hmem => ?_
  obtain ⟨hle, hlt⟩ := h.mem_numbers hmem
  rcases hi with hi | hi
  · exact Nat.not_le_of_lt hi hle
  · exact Nat.not_le_of_lt hlt hi

/-- An accepted program is like itself. -/
lemma like (h : Accepted source k program distances k') {σ : Setting}
    (htokens : ∀ t ∈ Stmt.tokensAll program, σ.tokens t t)
    (hentry : ∀ i ∈ Stmt.numbersAll program, σ.entry i i distances[i]?)
    (hown : ∀ i ∈ Stmt.ownAssignsAll program, σ.own i) : StmtsLike σ false [] program program := by
  obtain ⟨-, -, hlike⟩ := copy_accepted (r := {}) h.reading
    (Source.proper_tokens source) h.resolved (fun i => i) Function.injective_id (fun _ => True)
    (fun t => t) (fun _ => rfl) rfl rfl rfl fun _ _ => by simp
  have hself := hlike σ htokens hentry hown
  rwa [Stmt.relabelAll_id] at hself

/-- A source is accepted whatever number it starts with. -/
lemma shift (h : Accepted source k program distances k') (n : Nat) :
    ∃ distances', Accepted source (n + k) (Stmt.relabelAll (n + ·) (fun t => t) program) distances'
      (n + k') := by
  have hread := h.reading.relabel (n := n) (g := fun t => t) (fun _ => rfl) rfl
  rw [List.map_id'] at hread
  obtain ⟨hclean, -⟩ := copy_accepted (r := {}) h.reading
    (Source.proper_tokens source) h.resolved (n + ·) (fun _ _ => Nat.add_left_cancel)
    (fun _ => True) (fun t => t) (fun _ => rfl) rfl rfl rfl fun _ _ => by simp
  exact ⟨_, h.faultless, hread, resolve_eq_ok_iff.mpr ⟨hclean, rfl⟩⟩

end Accepted

end GermanLox
