import GermanLox.Proofs.Grammar.Reading

/-!
# Statements in place of others

A counting loop within a program can be told by its first word: no other phrase has it inside except
as the start of a counting loop. So other tokens with the same tree can take the place of a counting
loop, and the tree of the program stays the same, as long as no `sonst` follows that one of the two
would take.
-/

namespace GermanLox
namespace Tree

open Reading (NoElse)

/-- No counting loop starts here. -/
def Clear (ts : List Token) : Prop :=
  ∀ t ∈ ts, t.isKeyword .fuer = false

@[simp] lemma clear_nil : Clear [] :=
  fun _ h => nomatch h

@[simp] lemma clear_cons {t : Token} {ts : List Token} :
    Clear (t :: ts) ↔ t.isKeyword .fuer = false ∧ Clear ts :=
  List.forall_mem_cons

@[simp] lemma clear_append {ts us : List Token} : Clear (ts ++ us) ↔ Clear ts ∧ Clear us :=
  List.forall_mem_append

lemma Clear.not_mem {ts : List Token} (h : Clear ts) {t : Token} (ht : t.isKeyword .fuer) :
    t ∉ ts := by
  intro hmem
  rw [h t hmem] at ht
  cases ht

section Words

variable {t : Token}

lemma not_fuer_of_symbol {s : Symbol} (h : t.isSymbol s) : t.isKeyword .fuer = false := by
  rw [Reading.eq_symbol h]
  rfl

lemma not_fuer_of_identifier (h : t.isIdentifier) : t.isKeyword .fuer = false := by
  rw [Reading.eq_identifier h]
  rfl

lemma not_fuer_of_keyword {k : Keyword} (h : t.isKeyword k) (hk : k ≠ .fuer) :
    t.isKeyword .fuer = false := by
  rw [Reading.eq_keyword h]
  simp [Token.isKeyword, hk]

lemma not_fuer_of_literal {value : Literal} (h : Literal.ofKind? t.kind = some value) :
    t.isKeyword .fuer = false := by
  by_contra hfuer
  rw [Bool.not_eq_false] at hfuer
  rw [Reading.eq_keyword hfuer] at h
  cases h

lemma not_fuer_of_sign {p : Precedence} {node : ExprId → Expr → Expr → Expr}
    (h : Sign p t node) : t.isKeyword .fuer = false := by
  cases h with
  | or ht => exact not_fuer_of_keyword ht (by decide)
  | and ht => exact not_fuer_of_keyword ht (by decide)
  | _ ht => exact not_fuer_of_symbol ht

end Words

mutual

theorem Primary.clear {ts e} (h : Primary ts e) : Clear ts := by
  match h with
  | .literal h => simp [not_fuer_of_literal h]
  | .super ht hdot hmethod =>
    simp [not_fuer_of_keyword ht, not_fuer_of_symbol hdot, not_fuer_of_identifier hmethod]
  | .this ht => simp [not_fuer_of_keyword ht]
  | .var ht => simp [not_fuer_of_identifier ht]
  | .grouping hopening he hclosing =>
    simp [not_fuer_of_symbol hopening, he.clear, not_fuer_of_symbol hclosing]

theorem Call.clear {ts e} (h : Call ts e) : Clear ts := by
  match h with
  | .primary h => exact h.clear
  | .call hcallee hopening hargs hclosing =>
    simp [hcallee.clear, not_fuer_of_symbol hopening, hargs.clear, not_fuer_of_symbol hclosing]
  | .get hobject hdot hname =>
    simp [hobject.clear, not_fuer_of_symbol hdot, not_fuer_of_identifier hname]

theorem Arguments.clear {ts es} (h : Arguments ts es) : Clear ts := by
  match h with
  | .none => exact clear_nil
  | .some h _ => exact h.clear

theorem Entries.clear {ts es} (h : Entries ts es) : Clear ts := by
  match h with
  | .last he => exact he.clear
  | .more he hcomma hes => simp [he.clear, not_fuer_of_symbol hcomma, hes.clear]

theorem Unary.clear {ts e} (h : Unary ts e) : Clear ts := by
  match h with
  | .call h => exact h.clear
  | .not ht he => simp [not_fuer_of_symbol ht, he.clear]
  | .negate ht he => simp [not_fuer_of_symbol ht, he.clear]

theorem Operation.clear {ps ts e} (h : Operation ps ts e) : Clear ts := by
  match h with
  | .unary h => exact h.clear
  | .operand h => exact h.clear
  | @Operation.sign _ _ _ _ _ _ _ _ _ hleft hsign hright =>
    simp [hleft.clear, not_fuer_of_sign hsign, hright.clear]

theorem Expression.clear {ts e} (h : Expression ts e) : Clear ts := by
  match h with
  | .operation h => exact h.clear
  | .assign hname hsign hvalue =>
    simp [not_fuer_of_identifier hname, not_fuer_of_symbol hsign, hvalue.clear]
  | .set hobject hdot hname hsign hvalue =>
    simp [hobject.clear, not_fuer_of_symbol hdot, not_fuer_of_identifier hname,
      not_fuer_of_symbol hsign, hvalue.clear]

end

lemma Optional.clear {ts e} (h : Optional ts e) : Clear ts := by
  cases h with
  | none => exact clear_nil
  | some h => exact h.clear

lemma Condition.clear {ts e} (h : Condition ts e) : Clear ts := by
  cases h with
  | always => exact clear_nil
  | expression h => exact h.clear

lemma Names.clear {ts names} (h : Names ts names) : Clear ts := by
  induction h with
  | last ht => simp [not_fuer_of_identifier ht]
  | more ht hcomma _ ih => simp [not_fuer_of_identifier ht, not_fuer_of_symbol hcomma, ih]

lemma Parameters.clear {ts names} (h : Parameters ts names) : Clear ts := by
  cases h with
  | none => exact clear_nil
  | some h => exact h.clear

lemma Variable.clear {ts s} (h : Variable ts s) : Clear ts := by
  cases h with
  | plain hname hsemicolon =>
    simp [not_fuer_of_identifier hname, not_fuer_of_symbol hsemicolon]
  | initialized hname hsign he hsemicolon =>
    simp [not_fuer_of_identifier hname, not_fuer_of_symbol hsign, he.clear,
      not_fuer_of_symbol hsemicolon]

lemma Initializer.clear {ts s} (h : Initializer ts s) : Clear ts := by
  cases h with
  | none h => simp [not_fuer_of_symbol h]
  | varDecl hkeyword h => simp [not_fuer_of_keyword hkeyword, h.clear]
  | expression he hsemicolon => simp [he.clear, not_fuer_of_symbol hsemicolon]

lemma Superclass.clear {ts parent} (h : Superclass ts parent) : Clear ts := by
  cases h with
  | none => exact clear_nil
  | some hsign hname => simp [not_fuer_of_symbol hsign, not_fuer_of_identifier hname]

/-! ### Phrases that start the same list -/

/-- Of two statements that a list starts with, both are the same one. -/
lemma Statement.eq_of_append {d d' : Bool} {ts ts' rest rest' : List Token} {s s' : Stmt}
    (h : Statement d ts s) (h' : Statement d' ts' s') (heq : ts ++ rest = ts' ++ rest')
    (hrest : d → NoElse rest) (hrest' : d' → NoElse rest') :
    rest = rest' ∧ s.unnumbered = s'.unnumbered := by
  obtain ⟨u, k, hread, hu⟩ := h.reading 0
  obtain ⟨u', k', hread', hu'⟩ := h'.reading 0
  have htakes := hread.takes (ts ++ rest).length rest (Nat.le_refl _) hrest 0 []
  have htakes' := hread'.takes (ts ++ rest).length rest' (Nat.le_of_eq (by rw [heq]))
    hrest' 0 []
  rw [← heq] at htakes'
  have hsame := htakes.symm.trans htakes'
  simp only [EStateM.Result.ok.injEq, Parser.State.mk.injEq] at hsame
  obtain ⟨rfl, rfl, -⟩ := hsame
  exact ⟨rfl, hu.symm.trans hu'⟩

lemma Declarations.noElse {ts ss} (h : Declarations ts ss) {rest : List Token}
    (hrest : NoElse rest) : NoElse (ts ++ rest) := by
  obtain ⟨_, _, hread, -⟩ := h.reading 0
  exact hread.noElse hrest

/-- A list is cut before a token that its first part does not have. -/
lemma exists_cut {ts rest before after : List Token} {t : Token}
    (heq : ts ++ rest = before ++ t :: after) (ht : t ∉ ts) :
    ∃ us, before = ts ++ us ∧ rest = us ++ t :: after := by
  obtain ⟨us, rfl, hrest⟩ | ⟨us, rfl, hus⟩ := List.append_eq_append_iff.mp heq
  · exact ⟨us, rfl, hrest⟩
  · cases us with
    | nil => exact ⟨[], by simp, by simpa using hus.symm⟩
    | cons u us =>
      obtain ⟨rfl, -⟩ : t = u ∧ after = us ++ rest := by simpa using hus
      exact absurd (by simp) ht

/-- A list is cut within its first part or behind it. -/
lemma cut_within_or_behind {ts rest before after : List Token}
    (heq : ts ++ rest = before ++ after) :
    before.length < ts.length ∨ ∃ us, before = ts ++ us ∧ rest = us ++ after := by
  by_cases hlen : before.length < ts.length
  · exact .inl hlen
  · obtain ⟨us, rfl, hrest⟩ | ⟨us, rfl, hus⟩ := List.append_eq_append_iff.mp heq
    · exact .inr ⟨us, rfl, hrest⟩
    · rw [List.length_append] at hlen
      obtain rfl : us = [] := List.length_eq_zero_iff.mp (by omega)
      exact .inr ⟨[], by simp, by simpa using hus.symm⟩

/-! ### Exchanging a counting loop -/

/-- Tokens of a counting loop and others with the same tree. -/
structure Exchange (loop other : List Token) : Prop where
  starts : ∃ keyword us, loop = keyword :: us ∧ keyword.isKeyword .fuer
  trees : ∃ d d' s s', Statement d loop s ∧ Statement d' other s' ∧ s'.unnumbered = s.unnumbered

namespace Exchange

variable {loop other ts vs rest before after : List Token}

/-- Behind a stretch without counting loops. -/
lemma skip (hx : Exchange loop other) (ts rest : List Token) (hts : Clear ts)
    (heq : ts ++ rest = before ++ loop ++ after) :
    ∃ us, before = ts ++ us ∧ rest = us ++ loop ++ after := by
  obtain ⟨keyword, vs, rfl, hkeyword⟩ := hx.starts
  obtain ⟨us, hbefore, hrest⟩ := exists_cut (t := keyword) (by simpa using heq)
    (hts.not_mem hkeyword)
  exact ⟨us, hbefore, by simpa using hrest⟩

/-- A stretch without counting loops does not reach as far as the loop. -/
lemma not_within (hx : Exchange loop other) (hts : Clear ts)
    (heq : ts ++ rest = before ++ loop ++ after) : ¬ before.length < ts.length := by
  intro hlen
  obtain ⟨us, rfl, -⟩ := hx.skip ts rest hts heq
  rw [List.length_append] at hlen
  omega

/-- In front of a mark that closes a phrase. -/
lemma within (hx : Exchange loop other) {closing : Token} {s : Symbol}
    (hclosing : closing.isSymbol s) (heq : ts ++ closing :: rest = before ++ loop ++ after)
    (hlen : before.length < ts.length + 1) : before.length < ts.length := by
  obtain hwithin | ⟨us, rfl, hus⟩ := cut_within_or_behind (heq.trans (List.append_assoc ..))
  · exact hwithin
  · have hbehind : [closing] ++ rest = us ++ loop ++ after := by simpa using hus
    have hnot := hx.not_within (by simp [not_fuer_of_symbol hclosing]) hbehind
    simp only [List.length_append, List.length_singleton] at hlen hnot
    omega

end Exchange

variable {loop other : List Token}

mutual

/-- Within a statement, the other tokens can take the place of the loop: it is wholly inside the
statement, and the tree of the statement stays the same. -/
theorem Statement.exchange (hx : Exchange loop other) {dangling ts s}
    (h : Statement dangling ts s) {rest before after : List Token} (hrest : dangling → NoElse rest)
    (hafter : NoElse after) (heq : ts ++ rest = before ++ loop ++ after)
    (hlen : before.length < ts.length) :
    ∃ us d u, after = us ++ rest ∧ Statement d (before ++ other ++ us) u ∧ (d → NoElse rest) ∧
      u.unnumbered = s.unnumbered := by
  match h with
  | .expression he hsemicolon =>
    exact absurd hlen (hx.not_within (by simp [he.clear, not_fuer_of_symbol hsemicolon]) heq)
  | .print hkeyword he hsemicolon =>
    exact absurd hlen (hx.not_within (by simp [not_fuer_of_keyword hkeyword, he.clear,
      not_fuer_of_symbol hsemicolon]) heq)
  | .ret hkeyword hvalue hsemicolon =>
    exact absurd hlen (hx.not_within (by simp [not_fuer_of_keyword hkeyword, hvalue.clear,
      not_fuer_of_symbol hsemicolon]) heq)
  | @Statement.block opening ts body closing hopening hbody hclosing =>
    obtain ⟨us, rfl, hus⟩ := hx.skip [opening] (ts ++ closing :: rest)
      (by simp [not_fuer_of_symbol hopening]) (by simpa using heq)
    have hwithin := hx.within hclosing hus (by simpa using hlen)
    obtain ⟨ws, body', rfl, hbody', hsame⟩ := hbody.exchange hx
      (Reading.closes_of_rightBrace hclosing rest).noElse hafter hus hwithin
    refine ⟨ws ++ [closing], false, .block body', by simp, ?_, nofun, congrArg Stmt.block hsame⟩
    have hblock := Statement.block hopening hbody' hclosing
    simpa using hblock
  | @Statement.loop _ keyword opening ts e closing vs body hkeyword hopening he hclosing hbody =>
    obtain ⟨us, rfl, hus⟩ := hx.skip (keyword :: opening :: ts ++ [closing]) (vs ++ rest)
      (by simp [not_fuer_of_keyword hkeyword, not_fuer_of_symbol hopening,
        he.clear, not_fuer_of_symbol hclosing]) (by simpa using heq)
    obtain ⟨ws, d, u, rfl, hu, hd, hsame⟩ := hbody.exchange hx hrest hafter hus
      (by simp at hlen; omega)
    refine ⟨ws, d, .loop e u, rfl, ?_, hd, congrArg (Stmt.loop e.unnumbered) hsame⟩
    have hloop := Statement.loop hkeyword hopening he hclosing hu
    simpa using hloop
  | @Statement.count _ keyword opening ts₁ first ts₂ condition semicolon ts₃ increment closing vs
      body hkeyword hopening hfirst hcondition hsemicolon hincrement hclosing hbody =>
    cases before with
    | nil =>
      -- This is the loop, as two statements cannot start the same list.
      obtain ⟨d, d', u, u', hu, hu', hsame⟩ := hx.trees
      have hcount := Statement.count hkeyword hopening hfirst hcondition hsemicolon hincrement
        hclosing hbody
      obtain ⟨rfl, htree⟩ := hcount.eq_of_append hu (by simpa using heq) hrest fun _ => hafter
      exact ⟨[], d', u', by simp, by simpa using hu', fun _ => hafter, hsame.trans htree.symm⟩
    | cons t before =>
      obtain ⟨rfl, htail⟩ : keyword = t ∧ opening :: ts₁ ++ ts₂ ++ semicolon :: ts₃ ++ [closing] ++
          (vs ++ rest) = before ++ loop ++ after := by simpa using heq
      obtain ⟨us, rfl, hus⟩ := hx.skip _ _ (by simp [not_fuer_of_symbol hopening, hfirst.clear,
        hcondition.clear, not_fuer_of_symbol hsemicolon, hincrement.clear,
        not_fuer_of_symbol hclosing]) htail
      obtain ⟨ws, d, u, rfl, hu, hd, hsame⟩ := hbody.exchange hx hrest hafter hus
        (by simp at hlen; omega)
      refine ⟨ws, d, _, rfl, ?_, hd, unnumbered_loopBlock rfl hsame rfl rfl⟩
      have hcount := Statement.count hkeyword hopening hfirst hcondition hsemicolon hincrement
        hclosing hu
      simpa using hcount
  | @Statement.ifThen _ keyword opening ts e closing vs thenBranch hkeyword hopening he hclosing
      hthen =>
    obtain ⟨us, rfl, hus⟩ := hx.skip (keyword :: opening :: ts ++ [closing]) (vs ++ rest)
      (by simp [not_fuer_of_keyword hkeyword, not_fuer_of_symbol hopening,
        he.clear, not_fuer_of_symbol hclosing]) (by simpa using heq)
    obtain ⟨ws, d, u, rfl, hu, -, hsame⟩ := hthen.exchange hx (fun _ => hrest rfl) hafter hus
      (by simp at hlen; omega)
    refine ⟨ws, true, .ifElse e u none, rfl, ?_, hrest,
      congrArg (Stmt.ifElse e.unnumbered · none) hsame⟩
    have hif := Statement.ifThen hkeyword hopening he hclosing hu
    simpa using hif
  | @Statement.ifElse _ keyword opening ts e closing vs thenBranch word xs elseBranch hkeyword
      hopening he hclosing hthen hword helse =>
    obtain ⟨us, rfl, hus⟩ := hx.skip (keyword :: opening :: ts ++ [closing])
      (vs ++ (word :: xs ++ rest)) (by simp [not_fuer_of_keyword hkeyword,
        not_fuer_of_symbol hopening, he.clear, not_fuer_of_symbol hclosing]) (by simpa using heq)
    obtain hwithin | ⟨us, rfl, hbehind⟩ := cut_within_or_behind (hus.trans (List.append_assoc ..))
    · obtain ⟨ws, d, u, rfl, hu, hd, hsame⟩ := hthen.exchange hx nofun hafter hus hwithin
      -- The word behind the branch is there to show that the branch is closed.
      obtain rfl : d = false := by
        by_contra hopen
        have hnone := hd (by simpa using hopen)
        simp [NoElse, hword] at hnone
      refine ⟨ws ++ word :: xs, _, .ifElse e u (some elseBranch), by simp, ?_, hrest,
        congrArg (Stmt.ifElse e.unnumbered · (some elseBranch.unnumbered)) hsame⟩
      have hif := Statement.ifElse hkeyword hopening he hclosing hu hword helse
      simpa using hif
    · obtain ⟨us, rfl, helse'⟩ := hx.skip [word] (xs ++ rest)
        (by simp [not_fuer_of_keyword hword]) (by simpa using hbehind)
      obtain ⟨ws, d, u, rfl, hu, hd, hsame⟩ := helse.exchange hx hrest hafter helse'
        (by simp at hlen; omega)
      refine ⟨ws, d, .ifElse e thenBranch (some u), rfl, ?_, hd,
        congrArg (fun u => Stmt.ifElse e.unnumbered thenBranch.unnumbered (some u)) hsame⟩
      have hif := Statement.ifElse hkeyword hopening he hclosing hthen hword hu
      simpa using hif

theorem Declaration.exchange (hx : Exchange loop other) {dangling ts s}
    (h : Declaration dangling ts s) {rest before after : List Token}
    (hrest : dangling → NoElse rest) (hafter : NoElse after)
    (heq : ts ++ rest = before ++ loop ++ after) (hlen : before.length < ts.length) :
    ∃ us d u, after = us ++ rest ∧ Declaration d (before ++ other ++ us) u ∧
      u.unnumbered = s.unnumbered := by
  match h with
  | @Declaration.classDecl keyword name ts parent opening vs methods closing hkeyword hname hparent
      hopening hmethods hclosing =>
    obtain ⟨us, rfl, hus⟩ := hx.skip (keyword :: name :: ts ++ [opening])
      (vs ++ closing :: rest) (by simp [not_fuer_of_keyword hkeyword,
        not_fuer_of_identifier hname, hparent.clear, not_fuer_of_symbol hopening])
      (by simpa using heq)
    have hwithin := hx.within hclosing hus (by simp at hlen; omega)
    obtain ⟨ws, methods', rfl, hmethods', hsame⟩ := hmethods.exchange hx hafter hus hwithin
    refine ⟨ws ++ [closing], false, .classDecl name parent methods', by simp, ?_,
      congrArg (Stmt.classDecl name (parent.map Expr.unnumbered)) hsame⟩
    have hclass := Declaration.classDecl hkeyword hname hparent hopening hmethods' hclosing
    simpa using hclass
  | @Declaration.funDecl keyword ts decl hkeyword hdecl =>
    obtain ⟨us, rfl, hus⟩ := hx.skip [keyword] (ts ++ rest)
      (by simp [not_fuer_of_keyword hkeyword]) (by simpa using heq)
    obtain ⟨ws, decl', rfl, hdecl', hsame⟩ := hdecl.exchange hx hafter hus (by simpa using hlen)
    exact ⟨ws, false, .funDecl decl', rfl, .funDecl hkeyword hdecl', congrArg Stmt.funDecl hsame⟩
  | .varDecl hkeyword h =>
    exact absurd hlen (hx.not_within (by simp [not_fuer_of_keyword hkeyword, h.clear]) heq)
  | .statement h =>
    obtain ⟨ws, d, u, rfl, hu, -, hsame⟩ := h.exchange hx hrest hafter heq hlen
    exact ⟨ws, d, u, rfl, .statement hu, hsame⟩

theorem Declarations.exchange (hx : Exchange loop other) {ts ss} (h : Declarations ts ss)
    {rest before after : List Token} (hrest : NoElse rest) (hafter : NoElse after)
    (heq : ts ++ rest = before ++ loop ++ after) (hlen : before.length < ts.length) :
    ∃ us ss', after = us ++ rest ∧ Declarations (before ++ other ++ us) ss' ∧
      Stmt.unnumberedAll ss' = Stmt.unnumberedAll ss := by
  match h with
  | .nil => cases hlen
  | @Declarations.cons _ ts s vs ss hs hss =>
    rw [List.append_assoc] at heq
    obtain hwithin | ⟨us, rfl, hus⟩ := cut_within_or_behind (heq.trans (List.append_assoc ..))
    · obtain ⟨ws, d, u, rfl, hu, hsame⟩ := hs.exchange hx (fun _ => hss.noElse hrest) hafter heq
        hwithin
      refine ⟨ws ++ vs, u :: ss, by simp, ?_,
        congrArg (List.cons · (Stmt.unnumberedAll ss)) hsame⟩
      have hcons := Declarations.cons hu hss
      simpa using hcons
    · rw [← List.append_assoc] at hus
      obtain ⟨ws, ss', rfl, hss', hsame⟩ := hss.exchange hx hrest hafter hus
        (by simpa using hlen)
      refine ⟨ws, s :: ss', rfl, ?_, congrArg (List.cons s.unnumbered) hsame⟩
      have hcons := Declarations.cons hs hss'
      simpa using hcons

theorem Function.exchange (hx : Exchange loop other) {ts decl} (h : Function ts decl)
    {rest before after : List Token} (hafter : NoElse after)
    (heq : ts ++ rest = before ++ loop ++ after) (hlen : before.length < ts.length) :
    ∃ us decl', after = us ++ rest ∧ Function (before ++ other ++ us) decl' ∧
      decl'.unnumbered = decl.unnumbered := by
  match h with
  | @Function.mk name opening ts params closing brace vs body closing' hname hopening hparams
      hclosing hbrace hbody hclosing' =>
    obtain ⟨us, rfl, hus⟩ := hx.skip (name :: opening :: ts ++ [closing, brace])
      (vs ++ closing' :: rest) (by simp [not_fuer_of_identifier hname,
        not_fuer_of_symbol hopening, hparams.clear, not_fuer_of_symbol hclosing,
        not_fuer_of_symbol hbrace]) (by simpa using heq)
    have hwithin := hx.within hclosing' hus (by simp at hlen; omega)
    obtain ⟨ws, body', rfl, hbody', hsame⟩ := hbody.exchange hx
      (Reading.closes_of_rightBrace hclosing' rest).noElse hafter hus hwithin
    refine ⟨ws ++ [closing'], ⟨name, params, body'⟩, by simp, ?_,
      congrArg (FunctionDecl.mk name (params.map fun t => t)) hsame⟩
    have hfunction := Function.mk hname hopening hparams hclosing hbrace hbody' hclosing'
    simpa using hfunction

theorem Functions.exchange (hx : Exchange loop other) {ts decls} (h : Functions ts decls)
    {rest before after : List Token} (hafter : NoElse after)
    (heq : ts ++ rest = before ++ loop ++ after) (hlen : before.length < ts.length) :
    ∃ us decls', after = us ++ rest ∧ Functions (before ++ other ++ us) decls' ∧
      FunctionDecl.unnumberedAll decls' = FunctionDecl.unnumberedAll decls := by
  match h with
  | .nil => cases hlen
  | @Functions.cons ts decl vs decls hdecl hdecls =>
    rw [List.append_assoc] at heq
    obtain hwithin | ⟨us, rfl, hus⟩ := cut_within_or_behind (heq.trans (List.append_assoc ..))
    · obtain ⟨ws, decl', rfl, hdecl', hsame⟩ := hdecl.exchange hx hafter heq hwithin
      refine ⟨ws ++ vs, decl' :: decls, by simp, ?_,
        congrArg (List.cons · (FunctionDecl.unnumberedAll decls)) hsame⟩
      have hcons := Functions.cons hdecl' hdecls
      simpa using hcons
    · rw [← List.append_assoc] at hus
      obtain ⟨ws, decls', rfl, hdecls', hsame⟩ := hdecls.exchange hx hafter hus
        (by simpa using hlen)
      refine ⟨ws, decl :: decls', rfl, ?_, congrArg (List.cons decl.unnumbered) hsame⟩
      have hcons := Functions.cons hdecl hdecls'
      simpa using hcons

end

end Tree
end GermanLox
