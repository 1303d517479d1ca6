import GermanLox.Proofs.Equality
import GermanLox.Proofs.Run.Continued
import GermanLox.Proofs.Run.Discipline
import GermanLox.Proofs.Session.Moved

/-!
# Two sources as one

Two accepted sources with a line break between them are accepted as one source. A session that runs
the one source prints what it prints for the two one after another and ends as it ends for the
second, or as for the first if that does not complete.
-/

namespace GermanLox

lemma Reading.Declarations.append {k k₁ k' : ExprId} {ts us : List Token} {ss ss' : List Stmt}
    {ds ds' : List Diagnostic} (h : Reading.Declarations k ts ss k₁ ds)
    (h' : Reading.Declarations k₁ us ss' k' ds') :
    Reading.Declarations k (ts ++ us) (ss ++ ss') k' (ds ++ ds') := by
  match h with
  | .nil => exact h'
  | .cons hs hss =>
    rw [List.append_assoc, List.append_assoc]
    exact .cons hs (hss.append h')

lemma Resolver.stmts_append (ss us : List Stmt) (r : Resolver) :
    Resolver.stmts (ss ++ us) r = Resolver.stmts us (Resolver.stmts ss r) := by
  induction ss generalizing r with
  | nil => rfl
  | cons s ss ih => exact ih (Resolver.stmt s r)

/-- The tokens of a second source after those of a first one. -/
lemma Accepted.join {source source₁ source₂ : String} {k k₁ k₂ : ExprId} {g : Token → Token}
    {program₁ program₂ : List Stmt} {distances₁ distances₂ : Distances}
    (h₁ : Accepted source₁ k program₁ distances₁ k₁)
    (h₂ : Accepted source₂ k₁ program₂ distances₂ k₂) (hkind : ∀ t, (g t).kind = t.kind)
    (hlexeme : ∀ t, (g t).lexeme = t.lexeme)
    (hfaultless : (scan source).filterMap Item.diagnostic? = [])
    (htokens : Source.tokens source = Source.tokens source₁ ++ (Source.tokens source₂).map g) :
    ∃ distances, Accepted source k (program₁ ++ Stmt.relabelAll id g program₂) distances k₂ ∧
      (∀ i : ExprId, i < k₁ → distances[i]? = distances₁[i]?) ∧
      ∀ i : ExprId, k₁ ≤ i → distances[i]? = distances₂[i]? := by
  have hread₂ := h₂.reading.relabel (n := 0) hkind rfl
  simp only [Nat.zero_add] at hread₂
  obtain ⟨hclean₁, hrecorded₁⟩ := resolve_eq_ok_iff.mp h₁.resolved
  have hformed := h₁.reading.formed (Source.proper_tokens source₁)
  have hscopes : (Resolver.stmts program₁ {}).scopes = [] :=
    (Resolver.stmts_adds program₁ {} hformed).isNil.mpr rfl
  have hfresh : ∀ i : ExprId, k₁ ≤ i → (Resolver.stmts program₁ {}).distances[i]? = none := by
    intro i hi
    rw [hrecorded₁]
    exact h₁.distance_eq_none (.inr hi)
  obtain ⟨hclean, hdistances, -⟩ := copy_accepted h₂.reading (Source.proper_tokens source₂)
    h₂.resolved id Function.injective_id (k₁ ≤ ·) g hlexeme hscopes hclean₁
    (Resolver.stmts_context program₁ {}) hfresh
  rw [← Resolver.stmts_append] at hclean hdistances
  refine ⟨_, ⟨hfaultless, ?_, resolve_eq_ok_iff.mpr ⟨hclean, rfl⟩⟩, fun i hi => ?_, hdistances⟩
  · rw [htokens]
    exact h₁.reading.append hread₂
  · have hnot : i ∉ Stmt.numbersAll (Stmt.relabelAll id g program₂) := fun hmem =>
      Nat.not_le_of_lt hi (hread₂.account.mem_numbers hmem).1
    rw [Resolver.stmts_append, Resolver.stmts_distances _ hnot, hrecorded₁]

lemma Stmt.length_relabelAll (number : ExprId → ExprId) (token : Token → Token) (ss : List Stmt) :
    (Stmt.relabelAll number token ss).length = ss.length := by
  induction ss with
  | nil => rfl
  | cons s ss ih => exact congrArg (· + 1) ih

namespace Session

section Join

variable {programs : List (List Stmt)} {s : Session} {source₁ source : String}
  {program₁ program₂ : List Stmt} {distances₁ distances : Distances} {k₁ k : ExprId}

/-- If the first part of a program does not complete, the program ends with it. -/
lemma Sound.run_of_not_completed (hs : Sound programs s)
    (h₁ : Accepted source₁ s.nextId program₁ distances₁ k₁)
    (h : Accepted source s.nextId (program₁ ++ program₂) distances k)
    (hdistances : ∀ i : ExprId, i < k₁ → distances[i]? = distances₁[i]?) {host : Host}
    {fuel : Nat} (hverdict : (s.run host fuel source₁).1.verdict ≠ .completed) :
    (s.run host fuel source).1 = (s.run host fuel source₁).1 := by
  obtain ⟨w, hfirst⟩ := hs.runs_with h₁ hdistances host fuel
  rw [run_of_accepted h₁] at hverdict
  rw [run_of_accepted h₁, run_of_accepted h, executeAll_append]
  generalize executeAll host fuel program₁ (s.ready distances₁) = result₁ at hfirst hverdict
  generalize hresult : executeAll host fuel program₁ (s.ready distances) = result at hfirst
  cases hfirst with
  | ok => exact absurd rfl hverdict
  | @error _ _ _ _ stop _ _ hagree hlike =>
    obtain rfl := hlike.eq fun _ _ ht => ht.1
    rw [EStateM.bind_of_error hresult]
    simp only [Machine.after, hagree.output]
    cases stop <;> rfl

/-- If the first part of a program completes, the second one is run on the machine it leaves. -/
lemma Sound.executeAll_of_ok (hs : Sound programs s)
    (h₁ : Accepted source₁ s.nextId program₁ distances₁ k₁)
    (hdistances : ∀ i : ExprId, i < k₁ → distances[i]? = distances₁[i]?) {host : Host}
    {fuel : Nat} {x : Completion} {m₁ : Machine}
    (hok : executeAll host fuel program₁ (s.ready distances₁) = .ok x m₁)
    (program₂ : List Stmt) :
    ∃ w m₁', Agree (known (programs ++ [program₁]) ⟨m₁, k₁⟩) w m₁ m₁' ∧
      m₁'.distances = (s.ready distances).distances ∧
      executeAll host fuel (program₁ ++ program₂) (s.ready distances) =
        executeAll host (fuel - program₁.length) program₂ m₁' := by
  obtain ⟨w, hfirst⟩ := hs.runs_with h₁ hdistances host fuel
  have hretains := ((retaining host fuel).executeAll program₁).of_ok hok
  rw [hok] at hfirst
  generalize hresult : executeAll host fuel program₁ (s.ready distances) = result at hfirst
  cases hfirst with
  | @ok w₁ _ m₁' _ x' _ _ hagree hcompletion =>
    have hretains' := ((retaining host fuel).executeAll program₁).of_ok hresult
    refine ⟨w₁, m₁', ?_, hretains'.distances, ?_⟩
    · have hknown : known (programs ++ [program₁]) ⟨m₁, k₁⟩ =
          known (programs ++ [program₁]) ⟨s.ready distances₁, k₁⟩ := by
        simp only [known, hretains.distances]
      rwa [hknown]
    · rw [executeAll_append]
      cases hcompletion with
      | normal => exact EStateM.bind_of_ok hresult _
      | returned hinside => cases hinside

/-- A run that has ended does not change with more fuel. -/
lemma run_of_le (s : Session) (host : Host) (source : String) {fuel more : Nat} (hle : fuel ≤ more)
    (hends : (s.run host fuel source).1.verdict ≠ .outOfFuel) :
    s.run host more source = s.run host fuel source := by
  rcases hcompile : compile source s.nextId with ⟨outcome, k⟩
  cases outcome with
  | error diagnostics => simp only [run, hcompile]
  | ok compiled =>
    obtain ⟨program, distances⟩ := compiled
    have h := compile_eq_ok_iff.mp hcompile
    rw [run_of_accepted h] at hends
    have hsame := (endsAs_of_le host hle).executeAll program (s.ready distances) fun m₁ hm₁ =>
      hends (by rw [hm₁]; rfl)
    rw [run_of_accepted h, run_of_accepted h, hsame]

lemma exists_ok_of_completed {host : Host} {fuel : Nat}
    (h : Accepted source s.nextId program₁ distances k)
    (hverdict : (s.run host fuel source).1.verdict = .completed) :
    ∃ x m₁, executeAll host fuel program₁ (s.ready distances) = .ok x m₁ ∧
      s.run host fuel source = (⟨m₁.output, .completed⟩, ⟨m₁, k⟩) := by
  rw [run_of_accepted h] at hverdict ⊢
  generalize executeAll host fuel program₁ (s.ready distances) = result at hverdict ⊢
  cases result with
  | ok x m₁ => exact ⟨x, m₁, rfl, rfl⟩
  | error stop m₁ => cases stop <;> cases hverdict

end Join

/-- What the second part of a program prints and how it ends, if the first one completes. -/
lemma Reached.run_second {programs : List (List Stmt)} {s : Session} (hs : Reached programs s)
    {source₁ source₂ source : String} {program₁ program₂ : List Stmt}
    {distances₁ distances₂ distances : Distances} {k₁ k₂ : ExprId} {bound lines : Nat}
    (h₁ : Accepted source₁ s.nextId program₁ distances₁ k₁)
    (h₂ : Accepted (Source.lower bound source₂) k₁ program₂ distances₂ k₂)
    (h : Accepted source s.nextId
      (program₁ ++ Stmt.relabelAll id (Token.moved bound lines) program₂) distances k₂)
    (hold : ∀ i : ExprId, i < k₁ → distances[i]? = distances₁[i]?)
    (hnew : ∀ i : ExprId, k₁ ≤ i → distances[i]? = distances₂[i]?)
    (hearlier : ∀ earlier ∈ programs ++ [program₁], ∀ t ∈ Stmt.tokensAll earlier, t.line < bound)
    {host : Host} {fuel : Nat} {report₁ : Report} {s₁ : Session}
    (hrun : s.run host fuel source₁ = (report₁, s₁)) (hcompleted : report₁.verdict = .completed) :
    Sound (programs ++ [program₁]) s₁ ∧ s₁.nextId = k₁ ∧
    (s.run host fuel source).1 =
      { (s₁.run host (fuel - program₁.length) (Source.lower bound source₂)).1.relocated
          bound lines with
        output := report₁.output ++
          (s₁.run host (fuel - program₁.length) (Source.lower bound source₂)).1.output } := by
  obtain ⟨x, m₁, hok, hrun₁⟩ := exists_ok_of_completed h₁ (by rw [hrun]; exact hcompleted)
  have hsound := (hs.run host fuel source₁).sound
  rw [hrun₁, accepted_of_accepted h₁] at hsound
  obtain ⟨rfl, rfl⟩ := Prod.mk.inj (hrun.symm.trans hrun₁)
  obtain ⟨w, m₁', hagree, htable, hexecute⟩ := hs.sound.executeAll_of_ok h₁ hold hok
    (Stmt.relabelAll id (Token.moved bound lines) program₂)
  refine ⟨hsound, rfl, ?_⟩
  have hready : ∀ i : ExprId,
      m₁'.distances[i]? = (ready ⟨m₁, k₁⟩ distances₂).distances[i]? := by
    intro i
    rw [htable]
    by_cases hi : i < k₁
    · rw [Sound.ready_of_lt (s := ⟨m₁, k₁⟩) h₂ hi,
        (((retaining host fuel).executeAll program₁).of_ok hok).distances]
      simp only [ready, Std.TreeMap.getElem?_union, hold i hi]
    · have hle := Nat.le_of_not_lt hi
      rw [hsound.ready_of_le hle, hs.sound.ready_of_le (Nat.le_trans h₁.le hle), hnew i hle]
  obtain ⟨houtput, hverdict⟩ := hsound.runs_moved h₂ hearlier hagree hready host
    (fuel - program₁.length) lines
  have hprepend : m₁' = ({ m₁' with output := "" } : Machine).prepend m₁.output := by
    simp [Machine.prepend, ← hagree.output]
  have happends := (appends host (fuel - program₁.length)).executeAll
    (Stmt.relabelAll id (Token.moved bound lines) program₂) m₁.output { m₁' with output := "" }
  rw [← hprepend] at happends
  rw [run_of_accepted h, hexecute, happends, Report.relocated, ← houtput, ← hverdict]
  cases executeAll host (fuel - program₁.length)
    (Stmt.relabelAll id (Token.moved bound lines) program₂) { m₁' with output := "" } with
  | ok x m₂ => rfl
  | error stop m₂ => cases stop <;> rfl

/-- Two accepted sources with a line break between them, run as one by a session that has come
about. The one source is accepted. It runs out of fuel where the first source does and fails where
that does, with the same text and the same fault. If the first source completes, then with enough
fuel the text of the second one follows, run with the fuel that is left, and the end is that of the
second one. If that fails at a token of its own, the token stands further down by the lines of the
first source, as it does whenever line breaks are put before the second source; a token of a source
before does not move. -/
theorem run_join {programs : List (List Stmt)} {s : Session} (hs : Reached programs s)
    {source₁ source₂ : String} {compiled₁ compiled₂ : List Stmt × Distances} {k₁ k₂ : ExprId}
    (hcompile₁ : compile source₁ 0 = (.ok compiled₁, k₁))
    (hcompile₂ : compile source₂ 0 = (.ok compiled₂, k₂)) (host : Host) :
    (∃ compiled k, compile (Source.join source₁ source₂) s.nextId = (.ok compiled, k)) ∧
      ∀ fuel report₁ s₁, s.run host fuel source₁ = (report₁, s₁) →
        (report₁.verdict = .outOfFuel →
          (s.run host fuel (Source.join source₁ source₂)).1 = report₁) ∧
        (∀ f, report₁.verdict = .failed f → ∀ more, fuel ≤ more →
          (s.run host more (Source.join source₁ source₂)).1 = report₁) ∧
        (report₁.verdict = .completed → ∀ more report₂ s₂, fuel ≤ compiled₁.1.length + more →
          s₁.run host more source₂ = (report₂, s₂) → ∃ moves : Bool,
            (s.run host (compiled₁.1.length + more) (Source.join source₁ source₂)).1 =
              { report₂.lower (1 + source₁.toList.count '\n') moves with
                output := report₁.output ++ report₂.output } ∧
            (∀ count, (s₁.run host more (Source.lower count source₂)).1 =
              report₂.lower count moves) ∧
            ∀ f, report₂.verdict = .failed f →
              if moves then f.token ∈ Source.tokens source₂
              else ∃ program ∈ programs ++ s.accepted source₁,
                f.token ∈ Stmt.tokensAll program) := by
  obtain ⟨distances₁, h₁⟩ := (compile_eq_ok_iff.mp hcompile₁).shift s.nextId
  obtain ⟨distances₂, h₂⟩ := (compile_eq_ok_iff.mp hcompile₂).shift (s.nextId + k₁)
  have hlength := Stmt.length_relabelAll (s.nextId + ·) (fun t => t) compiled₁.1
  generalize Stmt.relabelAll (s.nextId + ·) (fun t => t) compiled₁.1 = program₁ at h₁ hlength
  obtain ⟨bound, hbound⟩ := exists_line_bound ((programs ++ [program₁]).flatMap Stmt.tokensAll)
  -- Every run is compared with that of the second source further down than all tokens before.
  obtain ⟨distances', h', -⟩ := h₂.copy (g := Token.lower bound) (fun _ => rfl) (fun _ => rfl)
    (Source.faultless_lower bound source₂ h₂.faultless) (Source.tokens_lower bound source₂)
  obtain ⟨distances, h, hold, hnew⟩ := h₁.join h'
    (g := Token.moved bound (1 + source₁.toList.count '\n')) (fun _ => rfl) (fun _ => rfl)
    (Source.faultless_join source₂ h₁.faultless h₂.faultless)
    (by rw [Source.map_moved_tokens_lower, Source.tokens_join source₂ h₁.faultless])
  have hearlier : ∀ earlier ∈ programs ++ [program₁], ∀ t ∈ Stmt.tokensAll earlier,
      t.line < bound := fun earlier hmem t ht => hbound t (List.mem_flatMap.mpr ⟨earlier, hmem, ht⟩)
  refine ⟨⟨_, _, compile_eq_ok_iff.mpr h⟩, fun fuel report₁ s₁ hrun => ⟨?_, ?_, ?_⟩⟩
  · intro hverdict
    have hnot : (s.run host fuel source₁).1.verdict ≠ .completed := by
      rw [hrun, hverdict]
      simp
    rw [hs.sound.run_of_not_completed h₁ h hold hnot, hrun]
  · intro f hverdict more hle
    have hmore := run_of_le s host source₁ hle (by rw [hrun, hverdict]; simp)
    rw [hrun] at hmore
    have hnot : (s.run host more source₁).1.verdict ≠ .completed := by
      rw [hmore, hverdict]
      simp
    rw [hs.sound.run_of_not_completed h₁ h hold hnot, hmore]
  · intro hverdict more report₂ s₂ hle hrun₂
    have hmore := run_of_le s host source₁ hle (by rw [hrun, hverdict]; simp)
    rw [hrun] at hmore
    obtain ⟨hsound, hid, hsecond⟩ := hs.run_second h₁ h' h hold hnew hearlier hmore hverdict
    rw [hlength, Nat.add_sub_cancel_left] at hsecond
    rw [← hid] at h'
    have hlower := hsound.run_lower h₂.faultless h' hearlier host more
    obtain ⟨moves, hmoves, htoken⟩ := hsound.exists_moves h₂.faultless h' hearlier host more
    rw [hrun₂] at hmoves htoken
    rw [accepted_of_accepted h₁]
    have houtput := congrArg Report.output (hmoves 0)
    rw [Report.output_relocated, Report.output_lower] at houtput
    refine ⟨moves, ?_, fun count => ?_, htoken⟩
    · rw [hsecond, hmoves, houtput]
    · rw [hlower, hmoves]

private def takingHost : Host :=
  ⟨fun _ => 0, fun _ => true⟩

private def declaringSource : String :=
  "var a = wahr;\ndrucke a;"

private def failingSource : String :=
  "drucke a;\ndrucke b;"

/-- The second source uses a variable of the first one and then fails on its second line, which is
the fourth one of both. -/
theorem run_join_failing :
    (∃ compiled k, compile declaringSource 0 = (.ok compiled, k)) ∧
      (∃ compiled k, compile failingSource 0 = (.ok compiled, k)) ∧
      ∃ s₁ s₂, start.run takingHost 9 declaringSource = (⟨"wahr\n", .completed⟩, s₁) ∧
        s₁.run takingHost 7 failingSource =
          (⟨"wahr\n", .failed ⟨⟨.identifier, "b", 2⟩, .undefinedVariable⟩⟩, s₂) ∧
        (start.run takingHost 9 (Source.join declaringSource failingSource)).1 =
          ⟨"wahr\nwahr\n", .failed ⟨⟨.identifier, "b", 4⟩, .undefinedVariable⟩⟩ := by
  have hcompile₁ : compile declaringSource 0 =
      (.ok ([.varDecl ⟨.identifier, "a", 1⟩ (some (.literal 0 (.bool true))),
        .print (.var 1 ⟨.identifier, "a", 2⟩)], {}), 2) :=
    compile_of_ok (by decide +kernel) (by decide +kernel) rfl
  have hcompile₂ : compile failingSource 0 =
      (.ok ([.print (.var 0 ⟨.identifier, "a", 1⟩), .print (.var 1 ⟨.identifier, "b", 2⟩)], {}),
        2) :=
    compile_of_ok (by decide +kernel) (by decide +kernel) rfl
  have hreport₁ : (start.run takingHost 9 declaringSource).1 = ⟨"wahr\n", .completed⟩ := by
    decide +kernel
  have hreport₂ : ((start.run takingHost 9 declaringSource).2.run takingHost 7 failingSource).1 =
      ⟨"wahr\n", .failed ⟨⟨.identifier, "b", 2⟩, .undefinedVariable⟩⟩ := by
    decide +kernel
  have hlowered : ((start.run takingHost 9 declaringSource).2.run takingHost 7
      (Source.lower 1 failingSource)).1 =
      ⟨"wahr\n", .failed ⟨⟨.identifier, "b", 3⟩, .undefinedVariable⟩⟩ := by
    decide +kernel
  rcases hrun₁ : start.run takingHost 9 declaringSource with ⟨report₁, s₁⟩
  rw [hrun₁] at hreport₁ hreport₂ hlowered
  rcases hrun₂ : s₁.run takingHost 7 failingSource with ⟨report₂, s₂⟩
  rw [hrun₂] at hreport₂
  subst hreport₁ hreport₂
  obtain ⟨-, hjoin⟩ := run_join .start hcompile₁ hcompile₂ takingHost
  obtain ⟨-, -, hcompleted⟩ := hjoin 9 _ _ hrun₁
  obtain ⟨moves, hjoined, hlower, -⟩ := hcompleted rfl 7 _ _ (by decide) hrun₂
  simp only [List.length_cons, List.length_nil, Nat.zero_add, Nat.reduceAdd] at hjoined
  refine ⟨⟨_, _, hcompile₁⟩, ⟨_, _, hcompile₂⟩, s₁, s₂, rfl, hrun₂, ?_⟩
  rw [hjoined]
  cases moves with
  | true => decide +kernel
  | false => exact absurd ((hlower 1).symm.trans hlowered) (by decide +kernel)

end Session

end GermanLox
