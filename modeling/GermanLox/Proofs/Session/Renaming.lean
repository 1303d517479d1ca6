import GermanLox.Proofs.Equality
import GermanLox.Proofs.Scope.Renamed
import GermanLox.Proofs.Session.Sound

/-!
# Renaming local variables

If a local variable or parameter gets another name, one that does not occur in the source, then the
source is accepted just as well, and a session that runs it cannot tell the difference: it prints
the same and ends the same way.
-/

namespace GermanLox

/-- Runs that end the same way: faults have the same cause and message, on the same line. -/
inductive Verdict.EndsAlike : Verdict → Verdict → Prop
  | completed : EndsAlike .completed .completed
  | failed {f f' : Fault} (hcause : f'.cause = f.cause) (hmessage : f'.message = f.message)
    (hline : f'.token.line = f.token.line) : EndsAlike (.failed f) (.failed f')
  | outOfFuel : EndsAlike .outOfFuel .outOfFuel

/-- The new spelling of a program is accepted, too. -/
lemma Accepted.rename {source : String} {k k' : ExprId} {program tree : List Stmt}
    {distances : Distances} (h : Accepted source k program distances k')
    (htree : Reading.Declarations k (Source.placed source) tree k' [])
    (hprogram : program = Stmt.relabelAll id (Source.onLine source) tree) {x : Token}
    (hx : (x, some x) ∈ Stmt.occurrencesAll false Bindings.none tree) {name : List Char}
    (hname : IsName name) (hfresh : ∀ t ∈ Source.placed source, t.lexeme ≠ String.ofList name) :
    ∃ program' distances', Accepted (Source.rename source tree x name) k program' distances' k' ∧
      (∀ i : ExprId, distances'[i]? = distances[i]?) ∧
      ∀ σ : Setting, (∀ t t' : Token, t'.line = t.line → σ.tokens t t') →
        (∀ i ∈ Stmt.numbersAll tree, σ.entry i i distances[i]?) → (∀ i, σ.own i) →
        StmtsLike σ false [] program program' := by
  subst hprogram
  obtain ⟨hclean, rfl⟩ := resolve_eq_ok_iff.mp h.resolved
  have hproper : ∀ t ∈ Source.placed source, t.Proper := by
    intro t ht
    obtain ⟨hkeyword, hident⟩ := Source.proper_tokens source (Source.onLine source t)
      (by rw [Source.tokens_eq]; exact List.mem_map_of_mem ht)
    exact ⟨hkeyword, hident⟩
  have hformed := htree.formed hproper
  have hnamed := Stmt.named_occurrencesAll false Bindings.none tree hformed
  have hmem : ∀ o ∈ Stmt.occurrencesAll false Bindings.none tree, o.1 ∈ Source.placed source :=
    fun o ho => htree.account.mem_tokens (Stmt.mem_tokensAll_of_occurrence ho)
  have hplaces : Fragment.NamesIn (Stmt.standsFor tree x) 0 (Fragment.split source.toList) := by
    refine Source.namesIn_split fun place hplace => ?_
    obtain ⟨t, hline, ht⟩ := Stmt.standsFor_iff.mp hplace
    exact ⟨t, hmem _ ht, hline, (hnamed _ ht rfl).kind⟩
  have hread := htree.relabel (n := 0) (g := (Respelling.rename source tree x name).right)
    (fun _ => rfl) rfl
  simp only [Nat.zero_add] at hread
  obtain ⟨hclean', hdistances, hlike⟩ := Respelling.program_lockstep
    (Respelling.proper_rename (hnamed _ hx rfl) hname (hfresh _ (hmem _ hx))) hformed
    (h.reading.formed (Source.proper_tokens source)) (Respelling.covers_rename htree hfresh)
    htree.account.nodup_numbers (Respelling.matches_top rfl rfl rfl rfl (fun _ _ => rfl) rfl) hclean
  refine ⟨_, _, ⟨?_, ?_, resolve_eq_ok_iff.mpr ⟨hclean', rfl⟩⟩, fun i => hdistances i trivial, ?_⟩
  · exact Source.faultless_respell hname hplaces h.faultless
  · rw [Source.rename, Source.tokens_respell hname hplaces h.faultless]
    exact hread
  · intro σ htokens hentry hown
    exact hlike σ ⟨fun t _ => htokens _ _ rfl, hentry, fun i _ => hown i⟩

namespace Session

/-- What is known of two runs of a session on programs whose tokens stand on the same lines. -/
def sameLines (s : Session) (distances distances' : Distances) : Setting where
  tokens t t' := t'.line = t.line
  entry i i' d := i' = i ∧ (s.ready distances).distances[i]? = d ∧
    (s.ready distances').distances[i]? = d
  own _ := True

section Reports

variable {programs : List (List Stmt)} {s : Session} {source source' : String}
  {program program' : List Stmt} {distances distances' : Distances} {k k' : ExprId}

lemma Sound.agree_sameLines (hs : Sound programs s)
    (h : Accepted source s.nextId program distances k)
    (h' : Accepted source' s.nextId program' distances' k') :
    ∃ w, Agree (s.sameLines distances distances') w (s.ready distances) (s.ready distances') := by
  have hfits : (known programs s).Fits (s.sameLines distances distances') := by
    refine ⟨?_, ?_, fun _ _ => trivial⟩
    · rintro t t' ⟨rfl, -⟩
      rfl
    · rintro i i' d ⟨rfl, hi, rfl⟩
      exact ⟨rfl, ready_of_lt h hi, ready_of_lt h' hi⟩
  obtain ⟨w, hw⟩ := hs.alike
  refine ⟨w, hw.store.widen hfits, rfl, ?_, ?_, rfl, rfl, rfl, rfl⟩
  · rintro i i' d ⟨-, hd, -⟩
    exact hd
  · rintro i i' d ⟨rfl, -, hd⟩
    exact hd

/-- Programs alike have reports alike. -/
lemma Sound.reports_alike (hs : Sound programs s)
    (h : Accepted source s.nextId program distances k)
    (h' : Accepted source' s.nextId program' distances' k')
    (hlike : StmtsLike (s.sameLines distances distances') false [] program program') (host : Host)
    (fuel : Nat) :
    (s.run host fuel source').1.output = (s.run host fuel source).1.output ∧
      (s.run host fuel source).1.verdict.EndsAlike (s.run host fuel source').1.verdict := by
  obtain ⟨w, hw⟩ := hs.agree_sameLines h h'
  have houtcome := (runsAlike _ host fuel).executeAll (.refl _) hlike hw hs.current
  rw [run_of_accepted h, run_of_accepted h']
  obtain ⟨⟨w₁, hafter⟩, -⟩ := houtcome.machines
  refine ⟨hafter.output, ?_⟩
  generalize executeAll host fuel program (s.ready distances) = result,
    executeAll host fuel program' (s.ready distances') = result' at houtcome
  cases houtcome with
  | ok => exact .completed
  | error _ _ _ hstop =>
    cases hstop with
    | outOfFuel => exact .outOfFuel
    | fault hline hcause hmessage => exact .failed hcause hmessage hline

end Reports

/-- A local variable or parameter of an accepted source gets a name that does not occur in the
source, in its declaration and in all names that stand for it. The program is read again from its
tokens with places for lines, so that these names can be told from others. The source that comes
out is accepted, and for every session that has come about, every host and every fuel the runs of
both print the same and end the same way. -/
theorem run_rename {programs : List (List Stmt)} {s : Session} (hs : Reached programs s)
    {source : String} {program : List Stmt} {distances : Distances} {k : ExprId}
    (hcompile : compile source s.nextId = (.ok (program, distances), k)) :
    ∃ tree, parse (Source.placed source) s.nextId = ⟨.ok tree, k⟩ ∧
      program = Stmt.relabelAll id (Source.onLine source) tree ∧
      ∀ x name, (x, some x) ∈ Stmt.occurrencesAll false Bindings.none tree → IsName name →
        (∀ t ∈ Source.tokens source, t.lexeme ≠ String.ofList name) →
        (∃ program' distances', compile (Source.rename source tree x name) s.nextId =
          (.ok (program', distances'), k)) ∧
        ∀ host fuel,
          (s.run host fuel (Source.rename source tree x name)).1.output =
            (s.run host fuel source).1.output ∧
          (s.run host fuel source).1.verdict.EndsAlike
            (s.run host fuel (Source.rename source tree x name)).1.verdict := by
  have h := compile_eq_ok_iff.mp hcompile
  obtain ⟨tree, htree, hprogram⟩ := Source.exists_placed h.reading
  refine ⟨tree, ?_, hprogram, ?_⟩
  · rw [parse_eq_ok_iff, List.takeWhile_eq_self_iff.mpr fun t ht =>
      decide_eq_true (Source.kind_ne_eof_of_mem_placed ht)]
    exact htree
  · intro x name hx hname hfresh
    obtain ⟨program', distances', h', hsame, hlike⟩ := h.rename htree hprogram hx hname
      fun t ht => hfresh (Source.onLine source t)
        (by rw [Source.tokens_eq]; exact List.mem_map_of_mem ht)
    refine ⟨⟨program', distances', compile_eq_ok_iff.mpr h'⟩, fun host fuel => ?_⟩
    refine hs.sound.reports_alike h h' (hlike _ (fun _ _ ht => ht) ?_ fun _ => trivial) host fuel
    intro i hi
    have hle := (htree.account.mem_numbers hi).1
    exact ⟨rfl, hs.sound.ready_of_le hle, (hs.sound.ready_of_le hle).trans (hsame i)⟩

private def hidingSource : String :=
  "{ var a = wahr; { drucke a; var a; drucke a; } drucke a; }"

private def renamedSource : String :=
  "{ var b = wahr; { drucke b; var a; drucke a; } drucke b; }"

private def hidingName (line : Nat) : Token :=
  ⟨.identifier, "a", line⟩

private def hidingTree (line : Nat → Nat) : List Stmt :=
  [.block [.varDecl (hidingName (line 4)) (some (.literal 0 (.bool true))),
    .block [.print (.var 1 (hidingName (line 15))), .varDecl (hidingName (line 20)) none,
      .print (.var 2 (hidingName (line 25)))],
    .print (.var 3 (hidingName (line 32)))]]

/-- The outer one of two variables of one name is renamed; the inner one, and what stands for it,
stays. -/
theorem run_rename_outer :
    (∃ program distances, compile hidingSource 0 = (.ok (program, distances), 4)) ∧
      (∃ program distances, compile renamedSource 0 = (.ok (program, distances), 4)) ∧
      ∀ host fuel,
        (start.run host fuel renamedSource).1.output =
          (start.run host fuel hidingSource).1.output ∧
        (start.run host fuel hidingSource).1.verdict.EndsAlike
          (start.run host fuel renamedSource).1.verdict := by
  have hcompile : compile hidingSource start.nextId =
      (.ok (hidingTree fun _ => 1, ((({} : Distances).insert 1 1).insert 2 0).insert 3 0), 4) :=
    compile_of_ok (by decide +kernel) (by decide +kernel) rfl
  have hparse : parse (Source.placed hidingSource) start.nextId = ⟨.ok (hidingTree id), 4⟩ := by
    decide +kernel
  have hsource :
      Source.rename hidingSource (hidingTree id) (hidingName 4) ['b'] = renamedSource := by
    decide +kernel
  obtain ⟨tree, htree, -, hrename⟩ := run_rename .start hcompile
  obtain rfl : hidingTree id = tree := by simpa using hparse.symm.trans htree
  have hrun := hrename (hidingName 4) ['b'] (by decide +kernel)
    ⟨⟨'b', [], rfl, rfl, by simp⟩, fun k => by cases k <;> decide⟩ (by decide +kernel)
  rw [hsource] at hrun
  exact ⟨⟨_, _, hcompile⟩, hrun⟩

end Session

end GermanLox
