import GermanLox.Proofs.Equality
import GermanLox.Proofs.Grammar.CountingLoop
import GermanLox.Proofs.Reading.Renumbered
import GermanLox.Proofs.Session.Rejected

/-!
# Counting loops in programs

A counting loop can be written by hand, wherever it stands. The program has the same tree then, up
to its numbers, so the same is wrong with it, and a session that runs it cannot tell the difference.
-/

namespace GermanLox

section Replaced

variable (loop : CountingLoop) (marks : LoopMarks) {before after : List Token}

/-- The program with the loop written by hand is read to the same tree up to numbers. -/
lemma Reading.Declarations.written {k k' : ExprId} {program : List Stmt}
    (h : Reading.Declarations k (before ++ loop.tokens ++ after) program k' [])
    (hafter : Reading.NoElse after) :
    ∃ number k'', Function.Injective number ∧
      Reading.Declarations k (before ++ loop.written marks ++ after)
        (Stmt.relabelAll number (fun t => t) program) k'' [] := by
  have hx := Tree.exchange_written loop marks
  have hlen : before.length < (before ++ loop.tokens ++ after).length := by
    obtain ⟨keyword, us, hloop, -⟩ := hx.starts
    simp [hloop]
  have hnone : Reading.NoElse [] := rfl
  obtain ⟨us, tree, hus, htree, hsame⟩ := (h.tree rfl).exchange hx hnone hafter
    (List.append_nil _) hlen
  rw [List.append_nil] at hus
  subst hus
  obtain ⟨program', k'', hread, hshape⟩ := htree.reading k
  obtain ⟨number, hnumber, rfl⟩ := Stmt.exists_relabelAll (hshape.trans hsame)
    h.account.nodup_numbers hread.account.nodup_numbers
  exact ⟨number, k'', hnumber, hread⟩

/-- The marks and words of the loop that is written by hand do not end the source. -/
lemma CountingLoop.kind_ne_eof (h : ∀ t ∈ loop.tokens, t.kind ≠ .eof) :
    ∀ t ∈ loop.written marks, t.kind ≠ .eof := by
  have hmark : ∀ {s : Symbol} (t : Mark s), t.val.kind ≠ .eof := fun t => by
    rw [Reading.eq_symbol t.property]
    simp
  have hword : ∀ {k : Keyword} (t : Word k), t.val.kind ≠ .eof := fun t => by
    rw [Reading.eq_keyword t.property]
    simp
  simp only [tokens, List.forall_mem_append, List.forall_mem_cons] at h
  obtain ⟨⟨⟨⟨-, -, hfirst⟩, hcondition⟩, -, hincrement⟩, -, hbody⟩ := h
  have hcondition' : ∀ t ∈ loop.writtenCondition marks, t.kind ≠ .eof := by
    unfold writtenCondition
    revert hcondition
    cases loop.condition with
    | none => exact fun _ => by simpa using hword marks.always
    | some phrase => exact id
  have hbody' : ∀ t ∈ loop.writtenBody marks, t.kind ≠ .eof := by
    unfold writtenBody
    revert hincrement
    cases loop.increment with
    | none => exact fun _ => hbody
    | some phrase =>
      intro hincrement
      simp only [List.forall_mem_append, List.forall_mem_cons]
      exact ⟨⟨⟨hmark _, hbody⟩, hincrement⟩, hmark _, hmark _, nofun⟩
  have hloop : ∀ t ∈ loop.writtenLoop marks, t.kind ≠ .eof := by
    simp only [writtenLoop, List.forall_mem_append, List.forall_mem_cons]
    exact ⟨⟨hword _, hmark _, hcondition'⟩, hmark _, hbody'⟩
  unfold written
  split
  · exact hloop
  · simp only [List.forall_mem_append, List.forall_mem_cons]
    exact ⟨⟨⟨hmark _, hfirst⟩, hloop⟩, hmark _, nofun⟩

end Replaced

namespace Session

end Session

end GermanLox
