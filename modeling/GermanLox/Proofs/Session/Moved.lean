import GermanLox.Proofs.Scope.Declared
import GermanLox.Proofs.Session.Sound
import GermanLox.Proofs.Source.Joined

/-!
# Sources further down

A source with line breaks before it runs as without them: it prints the same and ends in the same
way, but for the line of the token to blame if that is one of its own. Which of the tokens is one
of its own is told by the line once the source stands further down than all tokens before it.
-/

namespace GermanLox

/-- A source with the same tokens, but for their lines, is accepted just as well. -/
lemma Accepted.copy {source source' : String} {k k' : ExprId} {program : List Stmt}
    {distances : Distances} {g : Token → Token} (h : Accepted source k program distances k')
    (hkind : ∀ t, (g t).kind = t.kind)
    (hlexeme : ∀ t, (g t).lexeme = t.lexeme)
    (hfaultless : (scan source').filterMap Item.diagnostic? = [])
    (htokens : Source.tokens source' = (Source.tokens source).map g) :
    ∃ distances', Accepted source' k (Stmt.relabelAll id g program) distances' k' ∧
      ∀ i : ExprId, distances'[i]? = distances[i]? := by
  have hread := h.reading.relabel (n := 0) hkind rfl
  simp only [Nat.zero_add] at hread
  obtain ⟨hclean, hdistances, -⟩ := copy_accepted (r := {}) h.reading (Source.proper_tokens source)
    h.resolved id Function.injective_id (fun _ => True) g hlexeme rfl rfl rfl fun _ _ => by simp
  refine ⟨_, ⟨hfaultless, ?_, resolve_eq_ok_iff.mpr ⟨hclean, rfl⟩⟩, fun i => hdistances i trivial⟩
  rw [htokens]
  exact hread

/-- The verdict with another token to blame. -/
def Verdict.mapToken (g : Token → Token) : Verdict → Verdict
  | .failed f => .failed ⟨g f.token, f.cause⟩
  | v => v

lemma Verdict.mapToken_eq_failed {g : Token → Token} {v : Verdict} {f : Fault}
    (h : v.mapToken g = .failed f) : ∃ f₀, v = .failed f₀ ∧ f.token = g f₀.token := by
  cases v with
  | failed f₀ =>
    cases h
    exact ⟨f₀, rfl, rfl⟩
  | _ => cases h

/-- A token that stands further down by one count, as if it stood further down by another. -/
def Token.moved (bound count : Nat) (t : Token) : Token :=
  { t with line := t.line - bound + count }

/-- Only tokens below a line are moved. -/
def Token.relocated (bound count : Nat) (t : Token) : Token :=
  if bound ≤ t.line then t.moved bound count else t

lemma Token.moved_lower (bound count : Nat) (t : Token) :
    (t.lower bound).moved bound count = t.lower count := by
  simp [Token.moved, Token.lower]

lemma Source.map_moved_tokens_lower (bound count : Nat) (source : String) :
    (Source.tokens (Source.lower bound source)).map (Token.moved bound count) =
      (Source.tokens source).map (Token.lower count) := by
  rw [Source.tokens_lower, List.map_map]
  exact List.map_congr_left fun t _ => Token.moved_lower bound count t

/-- The tokens of a program further down. -/
lemma Accepted.exists_lower {bound : Nat} {source : String} {k k' : ExprId} {program : List Stmt}
    {distances : Distances} (h : Accepted (Source.lower bound source) k program distances k')
    {t : Token} (ht : t ∈ Stmt.tokensAll program) :
    ∃ u ∈ Source.tokens source, u.lower bound = t := by
  have hmem := h.reading.account.mem_tokens ht
  rw [Source.tokens_lower] at hmem
  exact List.mem_map.mp hmem

/-- The report of a source that stands further down, if its token to blame moves along or not. -/
def Report.lower (count : Nat) (moves : Bool) (report : Report) : Report :=
  { report with verdict := report.verdict.mapToken (if moves then Token.lower count else id) }

/-- The report of a source that stood further down than all tokens before, if it stood elsewhere. -/
def Report.relocated (bound count : Nat) (report : Report) : Report :=
  { report with verdict := report.verdict.mapToken (Token.relocated bound count) }

@[simp]
lemma Report.output_lower (count : Nat) (moves : Bool) (report : Report) :
    (report.lower count moves).output = report.output := rfl

@[simp]
lemma Report.output_relocated (bound count : Nat) (report : Report) :
    (report.relocated bound count).output = report.output := rfl

/-- Whether a token is moved does not depend on how far. -/
lemma Verdict.exists_moves (bound : Nat) (v : Verdict) :
    ∃ moves : Bool, (∀ f, v = .failed f → (moves = true ↔ bound ≤ f.token.line)) ∧
      ∀ count, v.mapToken (Token.relocated bound count) =
        (v.mapToken (Token.relocated bound 0)).mapToken
          (if moves then Token.lower count else id) := by
  cases v with
  | failed f =>
    refine ⟨decide (bound ≤ f.token.line), ?_, fun count => ?_⟩
    · rintro _ ⟨rfl⟩
      exact decide_eq_true_iff
    · by_cases hline : bound ≤ f.token.line
      · simp [Verdict.mapToken, Token.relocated, hline, Token.moved, Token.lower]
      · simp [Verdict.mapToken, Token.relocated, hline]
  | _ => exact ⟨true, fun f hf => (by cases hf), fun _ => rfl⟩

/-- Some line is further down than all tokens. -/
lemma exists_line_bound (ts : List Token) : ∃ bound, ∀ t ∈ ts, t.line < bound := by
  induction ts with
  | nil => exact ⟨0, fun t ht => nomatch ht⟩
  | cons t ts ih =>
    obtain ⟨bound, hbound⟩ := ih
    refine ⟨max bound (t.line + 1), fun u hu => ?_⟩
    rcases List.mem_cons.mp hu with rfl | hu
    · omega
    · have := hbound u hu
      omega

namespace Session

variable {programs : List (List Stmt)} {s : Session} {source : String} {program : List Stmt}
  {distances distances' : Distances} {k : ExprId} {g : Token → Token} {bound : Nat}

/-- Distances for numbers to come do not change the run of a program. -/
lemma Sound.runs_with (hs : Sound programs s)
    (h : Accepted source s.nextId program distances k)
    (hdistances : ∀ i : ExprId, i < k → distances'[i]? = distances[i]?) (host : Host)
    (fuel : Nat) :
    ∃ w, OutcomeLike (known (programs ++ [program]) ⟨s.ready distances, k⟩) w (s.ready distances)
      (CompletionLike (known (programs ++ [program]) ⟨s.ready distances, k⟩) false
        fun _ _ => True)
      (executeAll host fuel program (s.ready distances))
      (executeAll host fuel program (s.ready distances')) := by
  obtain ⟨⟨w, hw⟩, hlike⟩ := hs.before h
  have hagree : Agree (known (programs ++ [program]) ⟨s.ready distances, k⟩) w (s.ready distances)
      (s.ready distances') := by
    refine ⟨hw.store, rfl, hw.left, ?_, rfl, rfl, rfl, rfl⟩
    rintro i i' d ⟨rfl, hi, rfl⟩
    simp only [ready, Std.TreeMap.getElem?_union, hdistances i' hi]
  exact ⟨w, (runsAlike _ host fuel).executeAll (.refl _) hlike hagree hs.current⟩

/-- The token to blame is one of the program or of those before it. -/
lemma Sound.exists_mem_tokens (hs : Sound programs s)
    (h : Accepted source s.nextId program distances k) {host : Host} {fuel : Nat} {f : Fault}
    (hf : (s.run host fuel source).1.verdict = .failed f) :
    ∃ earlier ∈ programs ++ [program], f.token ∈ Stmt.tokensAll earlier := by
  obtain ⟨w, houtcome⟩ := hs.runs_with h (fun _ _ => rfl) host fuel
  rw [run_of_accepted h] at hf
  generalize executeAll host fuel program (s.ready distances) = result at houtcome hf
  cases houtcome with
  | ok => cases hf
  | error _ _ _ hstop =>
    cases hstop with
    | outOfFuel => cases hf
    | fault htoken =>
      cases hf
      exact htoken.2

/-- What is known of a program and a copy of it, run after some programs. -/
def copied (programs : List (List Stmt)) (program : List Stmt) (g : Token → Token)
    (distances distances' : Distances) : Setting where
  tokens t t' := (t' = t ∧ ∃ earlier ∈ programs, t ∈ Stmt.tokensAll earlier) ∨
    (t' = g t ∧ t ∈ Stmt.tokensAll program)
  entry i i' d := i' = i ∧ distances[i]? = d ∧ distances'[i]? = d
  own _ := True

/-- A copy of a program runs like the program, on a machine like the session's own. -/
lemma Sound.runs_copy (hs : Sound programs s)
    (h : Accepted source s.nextId program distances k) (hlexeme : ∀ t, (g t).lexeme = t.lexeme)
    {w : Labels} {m : Machine} (hm : Agree (known programs s) w s.machine m)
    (hdistances : ∀ i : ExprId, distances'[i]? = (s.ready distances).distances[i]?) (host : Host)
    (fuel : Nat) :
    OutcomeLike (copied programs program g (s.ready distances).distances distances') w
      (s.ready distances)
      (CompletionLike (copied programs program g (s.ready distances).distances distances') false
        fun _ _ => True)
      (executeAll host fuel program (s.ready distances))
      (executeAll host fuel (Stmt.relabelAll id g program)
        { m with output := "", distances := distances' }) := by
  have hfits : (known programs s).Fits
      (copied programs program g (s.ready distances).distances distances') := by
    refine ⟨fun _ _ ht => .inl ht, ?_, fun _ _ => trivial⟩
    rintro i i' d ⟨rfl, hi, rfl⟩
    exact ⟨rfl, ready_of_lt h hi, (hdistances i').trans (ready_of_lt h hi)⟩
  have hagree : Agree (copied programs program g (s.ready distances).distances distances') w
      (s.ready distances) { m with output := "", distances := distances' } := by
    refine ⟨hm.store.widen hfits, hm.current, ?_, ?_, hm.nextIdentity, hm.readings, hm.writes, rfl⟩
    · rintro i i' d ⟨-, hd, -⟩
      exact hd
    · rintro i i' d ⟨rfl, -, hd⟩
      exact hd
  obtain ⟨-, -, hlike⟩ := copy_accepted (r := {}) h.reading (Source.proper_tokens source)
    h.resolved id Function.injective_id (fun _ => True) g hlexeme rfl rfl rfl fun _ _ => by simp
  refine (runsAlike _ host fuel).executeAll (.refl _) (hlike _ (fun t ht => .inr ⟨rfl, ht⟩) ?_
    fun _ _ => trivial) hagree hs.current
  intro i hi
  have hready : (s.ready distances).distances[i]? = distances[i]? :=
    hs.ready_of_le (h.mem_numbers hi).1
  exact ⟨rfl, hready, (hdistances i).trans hready⟩

/-- If the tokens of a program are further down than all before, then it is told by the line which
token is to blame for the failure of a copy. -/
lemma verdict_copied {w : Labels} {m : Machine} {α : Type} {Q : Labels → Store → α → α → Prop}
    {result result' : EStateM.Result Stop Machine α} {bound : Nat}
    (hearlier : ∀ earlier ∈ programs, ∀ t ∈ Stmt.tokensAll earlier, t.line < bound)
    (hprogram : ∀ t ∈ Stmt.tokensAll program, bound ≤ t.line)
    (h : OutcomeLike (copied programs program g distances distances') w m Q result result') :
    Verdict.ofResult result' =
      (Verdict.ofResult result).mapToken fun t => if bound ≤ t.line then g t else t := by
  cases h with
  | ok => rfl
  | error _ _ _ hstop =>
    cases hstop with
    | outOfFuel => rfl
    | @fault f f' htoken hcause hmessage =>
      obtain ⟨token, cause⟩ := f
      obtain ⟨token', cause'⟩ := f'
      obtain rfl : cause' = cause := hcause
      have heq : token' = if bound ≤ token.line then g token else token := by
        rcases htoken with ⟨htoken, earlier, hmem, ht⟩ | ⟨htoken, ht⟩
        · exact htoken.trans (if_neg (Nat.not_le_of_lt (hearlier earlier hmem token ht))).symm
        · exact htoken.trans (if_pos (hprogram token ht)).symm
      rw [Verdict.ofResult, Verdict.ofResult, Verdict.mapToken, heq]

/-- A source further down than all before: moved up or down, it prints the same, and it fails at the
same token or at the one that has moved along. -/
lemma Sound.runs_moved (hs : Sound programs s)
    (h : Accepted (Source.lower bound source) s.nextId program distances k)
    (hearlier : ∀ earlier ∈ programs, ∀ t ∈ Stmt.tokensAll earlier, t.line < bound)
    {w : Labels} {m : Machine} (hm : Agree (known programs s) w s.machine m)
    (hdistances : ∀ i : ExprId, distances'[i]? = (s.ready distances).distances[i]?) (host : Host)
    (fuel count : Nat) :
    (Machine.after (executeAll host fuel (Stmt.relabelAll id (Token.moved bound count) program)
        { m with output := "", distances := distances' })).output =
      (s.run host fuel (Source.lower bound source)).1.output ∧
    Verdict.ofResult (executeAll host fuel (Stmt.relabelAll id (Token.moved bound count) program)
        { m with output := "", distances := distances' }) =
      (s.run host fuel (Source.lower bound source)).1.verdict.mapToken
        (Token.relocated bound count) := by
  have houtcome := hs.runs_copy h (g := Token.moved bound count) (fun _ => rfl) hm hdistances
    host fuel
  obtain ⟨⟨w₁, hafter⟩, -⟩ := houtcome.machines
  rw [run_of_accepted h]
  refine ⟨hafter.output, verdict_copied hearlier (fun t ht => ?_) houtcome⟩
  obtain ⟨u, -, rfl⟩ := h.exists_lower ht
  exact Nat.le_add_left bound u.line

/-- The report of a source wherever it stands, from its report further down than all before. -/
lemma Sound.run_lower (hs : Sound programs s)
    (hfaultless : (scan source).filterMap Item.diagnostic? = [])
    (h : Accepted (Source.lower bound source) s.nextId program distances k)
    (hearlier : ∀ earlier ∈ programs, ∀ t ∈ Stmt.tokensAll earlier, t.line < bound) (host : Host)
    (fuel count : Nat) :
    (s.run host fuel (Source.lower count source)).1 =
      (s.run host fuel (Source.lower bound source)).1.relocated bound count := by
  obtain ⟨distances', h', hdistances⟩ := h.copy (g := Token.moved bound count) (fun _ => rfl)
    (fun _ => rfl) (Source.faultless_lower count source hfaultless)
    (by rw [Source.map_moved_tokens_lower, Source.tokens_lower])
  have hready : ∀ i : ExprId,
      (s.ready distances').distances[i]? = (s.ready distances).distances[i]? := fun i => by
    simp only [ready, Std.TreeMap.getElem?_union, hdistances]
  obtain ⟨w, hw⟩ := hs.alike
  obtain ⟨houtput, hverdict⟩ := hs.runs_moved h hearlier hw hready host fuel count
  rw [run_of_accepted h', Report.relocated, ← houtput, ← hverdict]
  rfl

/-- If a source fails at a token, this is one of its own, which moves along with the source, or one
of a program before, which does not. -/
lemma Sound.exists_moves (hs : Sound programs s)
    (hfaultless : (scan source).filterMap Item.diagnostic? = [])
    (h : Accepted (Source.lower bound source) s.nextId program distances k)
    (hearlier : ∀ earlier ∈ programs, ∀ t ∈ Stmt.tokensAll earlier, t.line < bound) (host : Host)
    (fuel : Nat) :
    ∃ moves : Bool,
      (∀ count, (s.run host fuel (Source.lower bound source)).1.relocated bound count =
        (s.run host fuel source).1.lower count moves) ∧
      ∀ f, (s.run host fuel source).1.verdict = .failed f →
        if moves then f.token ∈ Source.tokens source
        else ∃ earlier ∈ programs, f.token ∈ Stmt.tokensAll earlier := by
  have hzero := hs.run_lower hfaultless h hearlier host fuel 0
  rw [Source.lower_zero] at hzero
  obtain ⟨moves, hmoves, hrelocated⟩ := Verdict.exists_moves bound
    (s.run host fuel (Source.lower bound source)).1.verdict
  refine ⟨moves, fun count => ?_, fun f hf => ?_⟩
  · rw [hzero, Report.relocated, Report.relocated, Report.lower, hrelocated]
  rw [hzero, Report.relocated] at hf
  obtain ⟨f₀, hf₀, htoken⟩ := Verdict.mapToken_eq_failed hf
  obtain ⟨earlier, hmem, ht⟩ := hs.exists_mem_tokens h hf₀
  rcases List.mem_append.mp hmem with hmem | hmem
  · have hline := hearlier earlier hmem _ ht
    rw [if_neg fun hmove => Nat.not_le_of_lt hline ((hmoves f₀ hf₀).mp hmove), htoken,
      Token.relocated, if_neg (Nat.not_le_of_lt hline)]
    exact ⟨earlier, hmem, ht⟩
  · obtain rfl := List.mem_singleton.mp hmem
    obtain ⟨t, ht, hlowered⟩ := h.exists_lower ht
    have hline : bound ≤ f₀.token.line := by
      rw [← hlowered]
      exact Nat.le_add_left bound t.line
    rw [if_pos ((hmoves f₀ hf₀).mpr hline), htoken, Token.relocated, if_pos hline, ← hlowered,
      Token.moved_lower]
    exact ht

end Session

end GermanLox
