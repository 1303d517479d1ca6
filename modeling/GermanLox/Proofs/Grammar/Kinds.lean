import GermanLox.Proofs.Grammar.Exact
import GermanLox.Proofs.Reading.Relabelled
import Mathlib.Data.List.TakeWhile

/-!
# The grammar looks at kinds only

What the grammar derives depends on the kinds of tokens, so tokens of the same kinds can be read as
well. In particular a program that was read from tokens after a change of their lexemes and lines is
the change of a program that was read from the tokens before it.
-/

namespace GermanLox

namespace Ebnf

variable {ν : Type} {rules : ν → Ebnf ν}

/-- All terminals look at kinds only. -/
def ByKind : Ebnf ν → Prop
  | terminal accepts => ∀ t u : Token, t.kind = u.kind → accepts t = accepts u
  | rule _ => True
  | seq a b => a.ByKind ∧ b.ByKind
  | alt a b => a.ByKind ∧ b.ByKind
  | opt a => a.ByKind
  | many a => a.ByKind
  | upTo _ a => a.ByKind

@[simp] lemma byKind_append {a b : Ebnf ν} : (a ++ b).ByKind ↔ a.ByKind ∧ b.ByKind :=
  Iff.rfl

@[simp] lemma byKind_or {a b : Ebnf ν} : (a ||| b).ByKind ↔ a.ByKind ∧ b.ByKind :=
  Iff.rfl

lemma Derives.of_kinds (hrules : ∀ name, (rules name).ByKind) {e : Ebnf ν} {ts us : List Token}
    (h : Derives rules e ts) (he : e.ByKind) (hus : us.map Token.kind = ts.map Token.kind) :
    Derives rules e us := by
  induction h generalizing us with
  | terminal h =>
    obtain ⟨u, hu, hkind⟩ := List.map_eq_singleton_iff.mp hus
    subst hu
    exact .terminal ((he u _ hkind).trans h)
  | rule _ ih => exact .rule (ih (hrules _) hus)
  | seq _ _ iha ihb =>
    rw [List.map_append] at hus
    obtain ⟨us, vs, rfl, hus, hvs⟩ := List.map_eq_append_iff.mp hus
    exact .seq (iha he.1 hus) (ihb he.2 hvs)
  | left _ ih => exact .left (ih he.1 hus)
  | right _ ih => exact .right (ih he.2 hus)
  | absent =>
    obtain rfl := List.map_eq_nil_iff.mp hus
    exact .absent
  | present _ ih => exact .present (ih he hus)
  | done =>
    obtain rfl := List.map_eq_nil_iff.mp hus
    exact .done
  | again _ _ iha ihs =>
    rw [List.map_append] at hus
    obtain ⟨us, vs, rfl, hus, hvs⟩ := List.map_eq_append_iff.mp hus
    exact .again (iha he hus) (ihs he hvs)
  | enough =>
    obtain rfl := List.map_eq_nil_iff.mp hus
    exact .enough
  | further _ _ iha ihs =>
    rw [List.map_append] at hus
    obtain ⟨us, vs, rfl, hus, hvs⟩ := List.map_eq_append_iff.mp hus
    exact .further (iha he hus) (ihs he hvs)

end Ebnf

namespace Grammar

open Ebnf

@[simp] lemma byKind_symbol (s : Symbol) : (symbol s).ByKind := fun t u h => by
  simp only [Token.isSymbol, h]

@[simp] lemma byKind_word (k : Keyword) : (word k).ByKind := fun t u h => by
  simp only [Token.isKeyword, h]

@[simp] lemma byKind_ident : ident.ByKind := fun t u h => by
  simp only [Token.isIdentifier, h]

lemma byKind_rules (name : Rule) : (rules name).ByKind := by
  have hnumber : number.ByKind := fun t u h => by simp only [h]
  have htext : text.ByKind := fun t u h => by simp only [h]
  have heof : eof.ByKind := fun t u h => by simp only [h]
  cases name <;> simp [rules, entries, ByKind, hnumber, htext, heof]

end Grammar

namespace Reading

variable {k k' : ExprId} {ts us : List Token} {ss : List Stmt}

/-- Tokens of the same kinds can be read. -/
lemma Declarations.exists_of_kinds (h : Declarations k ts ss k' [])
    (hus : us.map Token.kind = ts.map Token.kind) : ∃ ss' k'', Declarations k us ss' k'' [] := by
  have hderives : Grammar.Derivable .program (ts ++ [⟨.eof, "", 0⟩]) :=
    (Grammar.derivable_program_iff rfl).mpr ⟨ss, h.tree rfl⟩
  have hderives' : Grammar.Derivable .program (us ++ [⟨.eof, "", 0⟩]) :=
    hderives.of_kinds Grammar.byKind_rules trivial (by rw [List.map_append, List.map_append, hus])
  obtain ⟨tree, htree⟩ := (Grammar.derivable_program_iff rfl).mp hderives'
  obtain ⟨ss', k'', hread, -⟩ := htree.reading k
  exact ⟨ss', k'', hread⟩

/-- Tokens are read in one way. -/
lemma Declarations.unique {ss' : List Stmt} {k'' : ExprId} (hts : ∀ t ∈ ts, t.kind ≠ .eof)
    (h : Declarations k ts ss k' []) (h' : Declarations k ts ss' k'' []) : ss = ss' ∧ k' = k'' := by
  have htake : ts.takeWhile (·.kind ≠ .eof) = ts :=
    List.takeWhile_eq_self_iff.mpr fun t ht => decide_eq_true (hts t ht)
  have hparse : parse ts k = ⟨.ok ss, k'⟩ := parse_eq_ok_iff.mpr (by rwa [htake])
  have hparse' : parse ts k = ⟨.ok ss', k''⟩ := parse_eq_ok_iff.mpr (by rwa [htake])
  have hsame := hparse.symm.trans hparse'
  simpa using hsame

/-- What is read from changed tokens is the change of what is read from the tokens. -/
theorem Declarations.exists_relabelled {g : Token → Token} (hg : ∀ t, (g t).kind = t.kind)
    (hts : ∀ t ∈ ts, t.kind ≠ .eof) (h : Declarations k (ts.map g) ss k' []) :
    ∃ tree, Declarations k ts tree k' [] ∧ ss = Stmt.relabelAll id g tree := by
  have hkinds : ts.map Token.kind = (ts.map g).map Token.kind := by
    simp [Function.comp_def, hg]
  obtain ⟨tree, k'', htree⟩ := h.exists_of_kinds hkinds
  have hread := htree.relabel (n := 0) hg rfl
  simp only [Nat.zero_add] at hread
  have hts' : ∀ t ∈ ts.map g, t.kind ≠ .eof := by
    intro t ht
    obtain ⟨u, hu, rfl⟩ := List.mem_map.mp ht
    rw [hg]
    exact hts u hu
  obtain ⟨rfl, rfl⟩ := h.unique hts' hread
  exact ⟨tree, htree, rfl⟩

end Reading

end GermanLox
