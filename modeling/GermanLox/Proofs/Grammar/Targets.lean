import GermanLox.Proofs.Grammar.Notes

/-!
# Assignments to what takes none

In a relaxed grammar any operation may stand on the left of an equals sign. What it derives is
parsed to the end, and each equals sign behind something other than a name or a property is reported
once, on its line, with nothing else.
-/

namespace GermanLox

/-- The equals signs in a parse tree behind what takes no value, inner ones first. -/
def ParseTree.badSigns (p : ParseTree Grammar.Rule) : List Token :=
  p.nodes.filterMap badSign?

lemma ParseTree.badSigns_node (name : Grammar.Rule) (parts : List (ParseTree Grammar.Rule)) :
    (node name parts).badSigns =
      (nodesAll parts).filterMap badSign? ++ (badSign? (node name parts)).toList := by
  cases h : badSign? (node name parts) <;> simp [badSigns, h]

def Diagnostic.invalidTarget (sign : Token) : Diagnostic :=
  .syntactic sign.line .invalidAssignmentTarget

namespace Grammar

open Ebnf GermanLox.Reading GermanLox.ParseTree

/-- The rules with any operation on the left of an equals sign. -/
def relaxed : Rule → Ebnf Rule
  | .assignment => rule .logicOr ++ opt (symbol .equal ++ rule .assignment)
  | name => rules name

/-- An operation with an equals sign behind it, noted if it is no target. -/
lemma exists_assignment_reading {k k₁ k₂ : Nat} {ts us : List Token} {target value : Expr}
    {ds ds' : List Diagnostic} {sign : Token}
    (htarget : Operation Precedence.tower k ts target k₁ ds) (hsign : sign.isSymbol .equal)
    (hvalue : Expression k₁ us value k₂ ds') :
    ∃ e k', Expression k (ts ++ sign :: us) e k'
      (ds ++ ds' ++ if target.isTarget then [] else [.invalidTarget sign]) := by
  by_cases h : target.isTarget
  · rw [if_pos h, List.append_nil]
    cases target with
    | var i name => exact ⟨_, _, .assign htarget hsign hvalue⟩
    | get i object name => exact ⟨_, _, .set htarget hsign hvalue⟩
    | _ => cases h
  · rw [if_neg h]
    exact ⟨_, _, .invalid htarget (by simpa using h) hsign hvalue⟩

lemma reads_relaxed {name : Rule} {parts : List (ParseTree Rule)}
    (h : ((relaxed name).unbounded).Fits Reads parts) : Reads name (.node name parts) := by
  cases name with
  | assignment =>
    intro k
    obtain ⟨_, _, ⟨left, hleft, rfl⟩, hright, rfl⟩ := h
    obtain ⟨target, k₁, htarget, heq⟩ := hleft k
    rcases hright with rfl | ⟨_, _, ⟨sign, hsign, rfl⟩, ⟨inner, hinner, rfl⟩, rfl⟩
    · exact ⟨target, k₁, by simpa [notes, badSign?] using Expression.operation htarget⟩
    · obtain ⟨value, k₂, hvalue⟩ := hinner k₁
      obtain ⟨e, k', he⟩ := exists_assignment_reading htarget hsign hvalue
      refine ⟨e, k', ?_⟩
      rw [heq] at he
      by_cases hbad : (node Rule.logicOr left).isTarget <;>
        simpa [notes, badSign?, hbad, Diagnostic.invalidTarget] using he
  | _ => exact reads_of_fits (by simp) h

/-- A list within the limit leaves no note of its own. -/
lemma entryNotes_of_le {parts es : List (ParseTree Rule)} (h : Divided parts es)
    (cause : SyntaxFault) (count : Nat) (hcount : count + es.length ≤ Parser.maxEntries) :
    entryNotes cause count parts = notesAll parts := by
  induction h generalizing count with
  | last hentry => simp [entryNotes, hentry, Tree.overlong_of_lt hcount]
  | more hentry hcomma _ ih =>
    rw [List.length_cons] at hcount
    have hlt : count < Parser.maxEntries := by omega
    have hrest := ih (count + 1) (by omega)
    simp [entryNotes, hentry, hcomma, Tree.overlong_of_lt hlt, hrest]

lemma notesAll_eq {parts : List (ParseTree Rule)}
    (h : ∀ p ∈ parts, p.notes = p.badSigns.map .invalidTarget) :
    notesAll parts = ((nodesAll parts).filterMap badSign?).map .invalidTarget := by
  induction parts with
  | nil => rfl
  | cons p parts ih =>
    rw [notesAll_cons, h p List.mem_cons_self, ih fun q hq => h q (List.mem_cons_of_mem _ hq)]
    simp [badSigns]

/-- With lists within the limit only assignments leave notes. -/
lemma notes_of_fits {name : Rule} {parts : List (ParseTree Rule)}
    (h : (relaxed name).Fits (fun _ p => p.notes = p.badSigns.map .invalidTarget) parts) :
    (node name parts).notes = (node name parts).badSigns.map .invalidTarget := by
  have hmem : ∀ p ∈ parts, p.notes = p.badSigns.map .invalidTarget := by
    intro p hp
    rcases h.of_mem hp with ⟨t, rfl⟩ | ⟨_, hp⟩
    · rfl
    · exact hp
  have hlist : ∀ {cause e}, IsEntry (fun _ p => p.notes = p.badSigns.map .invalidTarget) e →
      (entries e).Fits (fun _ p => p.notes = p.badSigns.map .invalidTarget) parts →
        entryNotes cause 0 parts = notesAll parts := by
    rintro cause e he ⟨_, _, hfirst, ⟨inner, hinner, hlen, rfl⟩, rfl⟩
    obtain ⟨es, hes, hlength⟩ := exists_divided he hfirst hinner
    refine entryNotes_of_le hes cause 0 ?_
    rw [Nat.zero_add, hlength]
    exact Nat.succ_le_succ hlen
  rw [badSigns_node, List.map_append, ← notesAll_eq hmem]
  cases name with
  | arguments => exact (hlist (isEntry_rule _ _) h).trans (List.append_nil _).symm
  | parameters => exact (hlist (isEntry_ident _) h).trans (List.append_nil _).symm
  | _ => rfl

/-- What the relaxed rules build is read, with a note for each bad sign and no others. -/
lemma notes_of_builds {name : Rule} {parts : List (ParseTree Rule)}
    (h : Builds relaxed (relaxed name) parts) :
    Reads name (node name parts) ∧
      (node name parts).notes = (node name parts).badSigns.map .invalidTarget :=
  ⟨reads_relaxed (h.unbounded.fits fun _ _ => reads_relaxed),
    notes_of_fits (h.fits fun _ _ => notes_of_fits)⟩

/-- What stands on the left of an equals sign is read as an operation. -/
lemma reads_left {left value : ParseTree Rule} {sign : Token}
    (h : Builds relaxed (relaxed .assignment) [left, token sign, value]) :
    sign.isSymbol .equal ∧ ReadsTarget (Operation Precedence.tower) left := by
  have hfits := h.unbounded.fits fun _ _ => reads_relaxed
  obtain ⟨_, _, ⟨inner, hinner, rfl⟩, hright, heq⟩ := hfits
  rcases hright with rfl | ⟨_, _, ⟨sign', hsign, rfl⟩, ⟨_, -, rfl⟩, rfl⟩
  · simp at heq
  · simp only [List.singleton_append, List.cons.injEq, token.injEq] at heq
    obtain ⟨rfl, rfl, -⟩ := heq
    exact ⟨hsign, hinner⟩

lemma noMark_relaxed {name : Rule} (hname : name ≠ .program) :
    (relaxed name).NoMark (· ≠ .program) := by
  cases name with
  | assignment => simp [relaxed, NoMark]
  | _ => exact noMark_rules hname

/-- The tokens in front of the end mark of a program. -/
lemma exists_mark_of_builds {parts : List (ParseTree Rule)}
    (h : Builds relaxed (relaxed .program) parts) :
    ∃ ts mark, tokensAll parts = ts ++ [mark] ∧ mark.kind = .eof ∧ ∀ t ∈ ts, t.kind ≠ .eof :=
  exists_mark (fun _ => noMark_relaxed) h

end Grammar

open Ebnf Grammar ParseTree

/-- Assignments to what takes no value are reported one for one and never derail the parser. For all
that the relaxed grammar derives, in whatever way, the diagnostics are those of the bad signs, and a
sign is bad if the operation in front of it is read as neither a name nor a property. -/
theorem parse_reports_bad_targets {ts tokens : List Token} {mark : Token}
    (h : Derives relaxed (rule .program) (ts ++ [mark]))
    (htokens : tokens = ts ∨ tokens = ts ++ [mark]) (k : ExprId) :
    (∃ p, Builds relaxed (rule .program) [p] ∧ p.tokens = ts ++ [mark]) ∧
      (∀ sign : Token, (Diagnostic.invalidTarget sign).message =
        "[Zeile " ++ sign.line.repr ++ "] Fehler: " ++ "Ungültiges Zuweisungsziel.") ∧
      ∀ p, Builds relaxed (rule .program) [p] → p.tokens = ts ++ [mark] →
        (p.badSigns = [] → ∃ program, (parse tokens k).outcome = .ok program) ∧
        (p.badSigns ≠ [] → (parse tokens k).outcome = .error (p.badSigns.map .invalidTarget)) ∧
        ∀ left sign value, .node .assignment [left, .token sign, value] ∈ p.nodes →
          sign.isSymbol .equal ∧ ∀ i, ∃ e i' ds,
            Reading.Operation Precedence.tower i left.tokens e i' ds ∧
              e.isTarget = left.isTarget := by
  refine ⟨?_, fun _ => rfl, fun p hp hptokens => ?_⟩
  · obtain ⟨ps, hps, hall⟩ := h.exists_builds
    cases hps with
    | rule hparts => exact ⟨_, .rule hparts, by simpa using hall⟩
  cases hp with
  | @rule _ parts hparts =>
    obtain ⟨hreads, hnotes⟩ := notes_of_builds hparts
    obtain ⟨us, mark', hus, hmark, hne⟩ := exists_mark_of_builds hparts
    obtain ⟨vs, mark'', hvs, -, hread⟩ := hreads
    rw [tokens_node] at hptokens hvs
    obtain ⟨rfl, hmark'⟩ := List.append_inj' (hptokens.symm.trans hus) rfl
    obtain ⟨rfl, -⟩ := List.append_inj' (hptokens.symm.trans hvs) rfl
    obtain rfl : mark = mark' := by simpa using hmark'
    obtain ⟨program, k', hprogram⟩ := hread k
    have hparse := parse_of_declarations hne hmark htokens hprogram
    rw [hnotes] at hparse
    refine ⟨fun hnone => ⟨program, ?_⟩, fun hsome => ?_, ?_⟩
    · rw [hparse, hnone]
      rfl
    · rw [hparse, if_neg (by simpa using hsome)]
    · intro left sign value hmem
      have hbuilds : Builds relaxed (relaxed .assignment) [left, .token sign, value] :=
        (Builds.rule hparts).of_mem_nodes (by simpa using hmem)
      obtain ⟨hsign, hleft⟩ := reads_left hbuilds
      refine ⟨hsign, fun i => ?_⟩
      obtain ⟨e, i', he, htarget⟩ := hleft i
      exact ⟨e, i', _, he, htarget⟩

/-- A primary form on its own where an operation may stand. -/
def ParseTree.operand (parts : List (ParseTree Rule)) : ParseTree Rule :=
  .node .logicOr [.node .logicAnd [.node .equality [.node .comparison [.node .term [.node .factor
    [.node .unary [.node .call [.node .primary parts]]]]]]]]

lemma builds_operand {parts : List (ParseTree Rule)} (h : Builds relaxed (rules .primary) parts) :
    Builds relaxed (rule .logicOr) [operand parts] := by
  have hprimary := @Builds.rule _ relaxed .primary _ h
  have hcall := @Builds.rule _ relaxed .call _ (.seq hprimary .done)
  have hunary := @Builds.rule _ relaxed .unary _ (.right hcall)
  have hfactor := @Builds.rule _ relaxed .factor _ (.seq hunary .done)
  have hterm := @Builds.rule _ relaxed .term _ (.seq hfactor .done)
  have hcomparison := @Builds.rule _ relaxed .comparison _ (.seq hterm .done)
  have hequality := @Builds.rule _ relaxed .equality _ (.seq hcomparison .done)
  have hlogicAnd := @Builds.rule _ relaxed .logicAnd _ (.seq hequality .done)
  exact @Builds.rule _ relaxed .logicOr _ (.seq hlogicAnd .done)

/-- The parse tree of `dies = (a) = b;` with each equals sign on a line of its own. -/
def selfAssignment : ParseTree Rule :=
  .node .program [.node .declaration [.node .statement [.node .exprStmt [.node .expression
    [.node .assignment [operand [.token ⟨.keyword .dies, "dies", 1⟩],
      .token ⟨.symbol .equal, "=", 2⟩,
      .node .assignment [operand [.token ⟨.symbol .leftParen, "(", 3⟩, .node .expression
          [.node .assignment [operand [.token ⟨.identifier, "a", 3⟩]]],
          .token ⟨.symbol .rightParen, ")", 3⟩],
        .token ⟨.symbol .equal, "=", 4⟩,
        .node .assignment [operand [.token ⟨.identifier, "b", 5⟩]]]]],
    .token ⟨.symbol .semicolon, ";", 5⟩]]], .token ⟨.eof, "", 5⟩]

lemma builds_selfAssignment : Builds relaxed (rule .program) [selfAssignment] := by
  have hname : ∀ t : Token, t.isIdentifier →
      Builds relaxed (rule .assignment) [.node .assignment [operand [.token t]]] := by
    intro t ht
    have hoperand := builds_operand (.right (.terminal ht))
    exact @Builds.rule _ relaxed .assignment _ (.seq hoperand .absent)
  have hgroup : ∀ (opening closing : Token) {inner : ParseTree Rule}, opening.isSymbol .leftParen →
      closing.isSymbol .rightParen → Builds relaxed (rule .assignment) [inner] →
        Builds relaxed (rule .logicOr)
          [operand [.token opening, .node .expression [inner], .token closing]] := by
    intro opening closing inner hopening hclosing hinner
    have hexpression := @Builds.rule _ relaxed .expression _ hinner
    exact builds_operand (.left (.left (.left (.right
      (.seq (.seq (.terminal hopening) hexpression) (.terminal hclosing))))))
  have hassign : ∀ (sign : Token) {left value : ParseTree Rule}, sign.isSymbol .equal →
      Builds relaxed (rule .logicOr) [left] → Builds relaxed (rule .assignment) [value] →
        Builds relaxed (rule .assignment) [.node .assignment [left, .token sign, value]] := by
    intro sign left value hsign hleft hvalue
    exact @Builds.rule _ relaxed .assignment _
      (.seq hleft (.present (.seq (.terminal hsign) hvalue)))
  have hdies : Token.isKeyword .dies ⟨.keyword .dies, "dies", 1⟩ := rfl
  have hself := builds_operand (.left (.right (.terminal hdies)))
  have hinner := hassign ⟨.symbol .equal, "=", 4⟩ rfl
    (hgroup ⟨.symbol .leftParen, "(", 3⟩ ⟨.symbol .rightParen, ")", 3⟩ rfl rfl
      (hname ⟨.identifier, "a", 3⟩ rfl)) (hname ⟨.identifier, "b", 5⟩ rfl)
  have houter := hassign ⟨.symbol .equal, "=", 2⟩ rfl hself hinner
  have hexpression := @Builds.rule _ relaxed .expression _ houter
  have hsemicolon : Token.isSymbol .semicolon ⟨.symbol .semicolon, ";", 5⟩ := rfl
  have hexprStmt := @Builds.rule _ relaxed .exprStmt _ (.seq hexpression (.terminal hsemicolon))
  have hstatement := @Builds.rule _ relaxed .statement _
    (.left (.left (.left (.left (.left (.left hexprStmt))))))
  have hdeclaration := @Builds.rule _ relaxed .declaration _ (.right hstatement)
  have hmark : decide ((⟨.eof, "", 5⟩ : Token).kind = .eof) := rfl
  exact @Builds.rule _ relaxed .program _ (.seq (.again hdeclaration .done) (.terminal hmark))

theorem parse_selfAssignment :
    Derives relaxed (rule .program) selfAssignment.tokens ∧
      (parse selfAssignment.tokens 0).outcome =
        .error [.syntactic 4 .invalidAssignmentTarget, .syntactic 2 .invalidAssignmentTarget] := by
  have hderives : Derives relaxed (rule .program)
      (selfAssignment.tokens.dropLast ++ [⟨.eof, "", 5⟩]) := builds_selfAssignment.derives
  have hsigns : selfAssignment.badSigns =
      [⟨.symbol .equal, "=", 4⟩, ⟨.symbol .equal, "=", 2⟩] := rfl
  have hreports := (parse_reports_bad_targets hderives (.inr rfl) 0).2.2 selfAssignment
    builds_selfAssignment rfl
  rw [hsigns] at hreports
  exact ⟨hderives, hreports.2.1 (by simp)⟩

end GermanLox
