import GermanLox.Proofs.Grammar.Kinds
import GermanLox.Proofs.Source.Lexemes
import GermanLox.Proofs.Source.Renaming

/-!
# The places of a program in its source

A token of a program does not tell where in the source it stands: two names on a line can be the
same. With its place for a line each token is another one, and a program can be read from such
tokens just as well. What is read is the program with a place for each line.
-/

namespace GermanLox

namespace Fragment

lemma respell_none (name : List Char) (place : Nat) (fragments : List Fragment) :
    respell (fun _ => false) name place fragments = fragments := by
  induction fragments generalizing place with
  | nil => rfl
  | cons fragment fragments ih => rw [respell, ih, if_neg Bool.false_ne_true]

/-- The fragment in the place of a token. -/
lemma exists_getElem?_of_mem_placed {place : Nat} {fragments : List Fragment} {t : Token}
    (h : t ∈ placed place fragments) :
    ∃ i text, t.line = place + i ∧ fragments[i]? = some ⟨.token t.kind, text⟩ := by
  induction fragments generalizing place with
  | nil => cases h
  | cons fragment fragments ih =>
    rcases List.mem_append.mp h with h | h
    · obtain ⟨hkind, -, hline⟩ := Item.ofFragment?_eq_token_iff.mp (Item.mem_bind_token?.mp h)
      exact ⟨0, fragment.text, hline, by rw [← hkind]; rfl⟩
    · obtain ⟨i, text, hline, hfragment⟩ := ih h
      exact ⟨i + 1, text, by omega, hfragment⟩

lemma pairwise_placed (place : Nat) (fragments : List Fragment) :
    (placed place fragments).Pairwise fun t u => t.line < u.line := by
  induction fragments generalizing place with
  | nil => exact .nil
  | cons fragment fragments ih =>
    obtain ⟨kind, text⟩ := fragment
    cases kind with
    | token kind =>
      refine List.pairwise_cons.mpr ⟨fun u hu => ?_, ih _⟩
      obtain ⟨i, -, hline, -⟩ := exists_getElem?_of_mem_placed hu
      change place < u.line
      omega
    | _ => exact ih _

lemma kind_ne_eof_of_mem_placed {place : Nat} {fragments : List Fragment}
    (hfragments : ∀ f ∈ fragments, f.kind ≠ .token .eof) {t : Token}
    (h : t ∈ placed place fragments) : t.kind ≠ .eof := by
  obtain ⟨i, text, -, hfragment⟩ := exists_getElem?_of_mem_placed h
  intro hkind
  rw [hkind] at hfragment
  exact hfragments _ (List.mem_of_getElem? hfragment) rfl

/-- No fragment of a text is an end. -/
lemma kind_ne_eof_of_mem_split {cs : List Char} {f : Fragment} (h : f ∈ split cs) :
    f.kind ≠ .token .eof := by
  intro hkind
  obtain ⟨c, cs, rfl⟩ := exists_starting h
  obtain ⟨rest, hrest⟩ := starting_isPrefix c cs
  rcases starting_lexeme hrest with hlexeme | ⟨-, hfault⟩ | ⟨-, hfault⟩
  · rw [hkind] at hlexeme
    exact hlexeme.kind_ne_eof rfl
  · rw [hfault] at hkind
    cases hkind
  · rw [hfault] at hkind
    cases hkind

end Fragment

namespace Source

/-- The tokens of a source, each with its place for a line. -/
def placed (source : String) : List Token :=
  Fragment.placed 0 (Fragment.split source.toList)

/-- The line that the fragment in a place ends on. -/
def lineOf (source : String) (place : Nat) : Nat :=
  1 + (((Fragment.split source.toList).take (place + 1)).flatMap Fragment.text).count '\n'

/-- A token in its place as it stands on its line. -/
def onLine (source : String) (t : Token) : Token :=
  ⟨t.kind, t.lexeme, lineOf source t.line⟩

variable {source : String}

lemma pairwise_placed (source : String) :
    (placed source).Pairwise fun t u => t.line < u.line :=
  Fragment.pairwise_placed 0 _

/-- No two tokens stand in one place. -/
lemma nodup_lines_placed (source : String) : ((placed source).map Token.line).Nodup :=
  List.pairwise_map.mpr ((pairwise_placed source).imp Nat.ne_of_lt)

lemma kind_ne_eof_of_mem_placed {t : Token} (h : t ∈ placed source) : t.kind ≠ .eof :=
  Fragment.kind_ne_eof_of_mem_placed (fun _ => Fragment.kind_ne_eof_of_mem_split) h

lemma linesFrom (source : String) :
    Fragment.LinesFrom 1 0 (Fragment.split source.toList) (lineOf source) := by
  intro i
  rw [Nat.zero_add]
  rfl

/-- Tokens up to the end, if they are those in the places of a source but for lexemes and lines. -/
lemma tokens_of_scan {source' : String} {g : Token → Token} (hg : ∀ t, (g t).kind = t.kind)
    {mark : Token} (hmark : mark.kind = .eof)
    (h : (scan source').filterMap Item.token? = (placed source).map g ++ [mark]) :
    tokens source' = (placed source).map g := by
  have hkinds : ∀ t ∈ (placed source).map g, decide (t.kind ≠ .eof) = true := by
    intro t ht
    obtain ⟨u, hu, rfl⟩ := List.mem_map.mp ht
    rw [hg]
    exact decide_eq_true (kind_ne_eof_of_mem_placed hu)
  rw [tokens, h, List.takeWhile_append_of_pos hkinds, List.takeWhile_cons_of_neg (by simp [hmark]),
    List.append_nil]

/-- The tokens of a source are those in its places. -/
lemma tokens_eq (source : String) : tokens source = (placed source).map (onLine source) := by
  obtain ⟨last, hlast⟩ := @Fragment.tokens_respell _ (fun _ => false) [] _ _ _ (linesFrom source)
    (fun _ _ _ h => absurd h Bool.false_ne_true)
  rw [Fragment.respell_none] at hlast
  exact tokens_of_scan (fun _ => rfl) rfl hlast

/-- A program with a place for each line. -/
theorem exists_placed {k k' : ExprId} {program : List Stmt}
    (h : Reading.Declarations k (tokens source) program k' []) :
    ∃ tree, Reading.Declarations k (placed source) tree k' [] ∧
      program = Stmt.relabelAll id (onLine source) tree := by
  rw [tokens_eq] at h
  exact h.exists_relabelled (fun _ => rfl) fun _ => kind_ne_eof_of_mem_placed

end Source

end GermanLox
