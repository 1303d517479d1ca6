import GermanLox.Proofs.Reading.Expressions

/-!
# The parser takes every program

What `Expressions` says of expressions, for statements and declarations. A statement that dangles
is taken only if no `sonst` follows. With `program_reads` this makes `Reading` exact: see
`parse_eq_ok_iff`.
-/

namespace GermanLox

/-- Whether a statement starts with this token. -/
def Token.startsStatement (t : Token) : Bool :=
  t.startsExpression || t.isKeyword .drucke || t.isKeyword .zurueckgeben ||
    t.isKeyword .waehrend || t.isKeyword .fuer || t.isKeyword .wenn || t.isSymbol .leftBrace

/-- Whether a declaration or statement starts with this token. -/
def Token.startsDeclaration (t : Token) : Bool :=
  t.startsStatement || t.isKeyword .klasse || t.isKeyword .funktion || t.isKeyword .var

namespace Reading

open GermanLox.Parser

/-- No `sonst` comes next. -/
def NoElse (rest : List Token) : Prop :=
  rest.head?.any (·.isKeyword .sonst) = false

lemma Statement.first {dangling k ts s k' ds} (h : Statement dangling k ts s k' ds) :
    ∃ t us, ts = t :: us ∧ t.startsStatement := by
  cases h with
  | expression he =>
    obtain ⟨t, us, rfl, ht⟩ := he.first
    exact ⟨t, _, rfl, by simp [Token.startsStatement, ht]⟩
  | print h => exact ⟨_, _, rfl, by simp [Token.startsStatement, h]⟩
  | ret h => exact ⟨_, _, rfl, by simp [Token.startsStatement, h]⟩
  | block h => exact ⟨_, _, rfl, by simp [Token.startsStatement, h]⟩
  | loop h => exact ⟨_, _, rfl, by simp [Token.startsStatement, h]⟩
  | count h => exact ⟨_, _, rfl, by simp [Token.startsStatement, h]⟩
  | ifThen h => exact ⟨_, _, rfl, by simp [Token.startsStatement, h]⟩
  | ifElse h => exact ⟨_, _, rfl, by simp [Token.startsStatement, h]⟩

lemma Declaration.first {dangling k ts s k' ds} (h : Declaration dangling k ts s k' ds) :
    ∃ t us, ts = t :: us ∧ t.startsDeclaration := by
  cases h with
  | classDecl h => exact ⟨_, _, rfl, by simp [Token.startsDeclaration, h]⟩
  | funDecl h => exact ⟨_, _, rfl, by simp [Token.startsDeclaration, h]⟩
  | varDecl h => exact ⟨_, _, rfl, by simp [Token.startsDeclaration, h]⟩
  | statement h =>
    obtain ⟨t, us, rfl, ht⟩ := h.first
    exact ⟨t, us, rfl, by simp [Token.startsDeclaration, ht]⟩

lemma not_startsDeclaration_of_else {t : Token} (h : t.isKeyword .sonst) :
    t.startsDeclaration = false := by
  rw [eq_keyword h]
  rfl

lemma not_startsDeclaration_of_rightBrace {t : Token} (h : t.isSymbol .rightBrace) :
    t.startsDeclaration = false := by
  rw [eq_symbol h]
  rfl

/-- Declarations never start with `sonst`. -/
lemma Declarations.noElse {k ts ss k' ds} (h : Declarations k ts ss k' ds) {rest : List Token}
    (hrest : NoElse rest) : NoElse (ts ++ rest) := by
  cases h with
  | nil => exact hrest
  | cons hs =>
    obtain ⟨t, us, rfl, ht⟩ := hs.first
    simp only [NoElse, List.cons_append, List.head?_cons, Option.any_some]
    by_contra helse
    rw [Bool.not_eq_false] at helse
    rw [not_startsDeclaration_of_else helse] at ht
    cases ht

lemma terminated_takes {k ts e k' ds} (h : Expression k ts e k' ds) {semicolon : Token}
    (hsemicolon : semicolon.isSymbol .semicolon) (room : Nat) (cause : SyntaxFault)
    (rest : List Token) (hroom : (ts ++ semicolon :: rest).length ≤ room) :
    Takes (terminated room cause) (ts ++ [semicolon]) rest k e k' ds := by
  intro line notes
  have he := h.takes room (semicolon :: rest) hroom (endsHere_of_semicolon hsemicolon rest)
  rw [List.append_assoc]
  refine EStateM.bind_eq_of_ok (he line notes) ?_
  exact EStateM.bind_eq_of_ok (expect_of_form hsemicolon _ _ _ _ _) rfl

lemma expressionStatement_takes {k ts e k' ds} (h : Expression k ts e k' ds) {semicolon : Token}
    (hsemicolon : semicolon.isSymbol .semicolon) (room : Nat) (rest : List Token)
    (hroom : (ts ++ semicolon :: rest).length ≤ room) :
    Takes (expressionStatement room) (ts ++ [semicolon]) rest k (.expression e) k' ds := by
  intro line notes
  exact EStateM.bind_eq_of_ok (terminated_takes h hsemicolon room _ rest hroom line notes) rfl

lemma startsExpression_not_semicolon {t : Token} (h : t.startsExpression) :
    t.isSymbol .semicolon = false := by
  by_contra hsemicolon
  rw [Bool.not_eq_false] at hsemicolon
  rw [eq_symbol hsemicolon] at h
  cases h

/-- An optional expression in front of the semicolon or parenthesis that closes it. -/
lemma Optional.takes {k ts e k' ds} (h : Optional k ts e k' ds) {stop : Symbol} {closing : Token}
    (hclosing : closing.isSymbol stop) (hstop : stop = .semicolon ∨ stop = .rightParen)
    (room : Nat) (rest : List Token) (hroom : (ts ++ closing :: rest).length ≤ room) :
    Takes (expressionUnless room stop) ts (closing :: rest) k e k' ds := by
  intro line notes
  cases h with
  | none =>
    refine EStateM.bind_eq_of_ok rfl ?_
    simp only [List.nil_append, List.head?_cons, Option.any_some, hclosing, List.append_nil]
    rfl
  | some h =>
    have hends : EndsHere (closing :: rest) := by
      rcases hstop with rfl | rfl
      · exact endsHere_of_semicolon hclosing rest
      · exact endsHere_of_rightParen hclosing rest
    have he := h.takes room (closing :: rest) hroom hends line notes
    obtain ⟨t, us, rfl, ht⟩ := h.first
    have hnot : t.isSymbol stop = false := by
      rcases hstop with rfl | rfl
      · exact startsExpression_not_semicolon ht
      · exact startsExpression_not_rightParen ht
    refine EStateM.bind_eq_of_ok rfl ?_
    simp only [List.cons_append, List.head?_cons, Option.any_some, hnot]
    exact EStateM.bind_eq_of_ok he rfl

lemma Variable.takes {k ts s k' ds} (h : Variable k ts s k' ds) (room : Nat) (rest : List Token)
    (hroom : (ts ++ rest).length ≤ room) : Takes (varDeclaration room) ts rest k s k' ds := by
  intro line notes
  cases h with
  | @plain name semicolon hname hsemicolon =>
    rw [List.append_nil]
    refine EStateM.bind_eq_of_ok (expect_of_form hname _ _ _ _ _) ?_
    refine EStateM.bind_eq_of_ok (accept?_of_not (isSymbol_ne hsemicolon nofun)) ?_
    refine EStateM.bind_eq_of_ok rfl ?_
    exact EStateM.bind_eq_of_ok (expect_of_form hsemicolon _ _ _ _ _) rfl
  | @initialized name sign ts e _ _ semicolon hname hsign he hsemicolon =>
    have hinner := he.takes room (semicolon :: rest) (by simp at hroom ⊢; omega)
      (endsHere_of_semicolon hsemicolon rest)
    rw [List.append_assoc]
    refine EStateM.bind_eq_of_ok (expect_of_form hname _ _ _ _ _) ?_
    refine EStateM.bind_eq_of_ok (accept?_of_form hsign _ _ _ _) ?_
    refine EStateM.bind_eq_of_ok (EStateM.map_of_ok (hinner line notes) some) ?_
    exact EStateM.bind_eq_of_ok (expect_of_form hsemicolon _ _ _ _ _) rfl

lemma startsExpression_not_var {t : Token} (h : t.startsExpression) :
    t.isKeyword .var = false := by
  by_contra hvar
  rw [Bool.not_eq_false] at hvar
  rw [eq_keyword hvar] at h
  cases h

lemma Initializer.takes {k ts s k' ds} (h : Initializer k ts s k' ds) (room : Nat)
    (rest : List Token) (hroom : (ts ++ rest).length ≤ room) :
    Takes (forInitializer room) ts rest k s k' ds := by
  intro line notes
  cases h with
  | none h =>
    rw [List.append_nil]
    exact EStateM.bind_eq_of_ok (accept?_of_form h _ _ _ _) rfl
  | @varDecl keyword ts s _ _ hkeyword h =>
    have hdecl := h.takes room rest (by simp at hroom ⊢; omega)
    have hnot : keyword.isSymbol .semicolon = false := by
      rw [eq_keyword hkeyword]
      rfl
    refine EStateM.bind_eq_of_ok (accept?_of_not (by simpa using hnot)) ?_
    refine EStateM.bind_eq_of_ok (accept?_of_form hkeyword _ _ _ _) ?_
    exact EStateM.map_of_ok (hdecl line notes) some
  | @expression ts e _ _ semicolon he hsemicolon =>
    have hinner := expressionStatement_takes he hsemicolon room rest (by simpa using hroom)
    obtain ⟨t, us, rfl, ht⟩ := he.first
    refine EStateM.bind_eq_of_ok
      (accept?_of_not (by simpa using startsExpression_not_semicolon ht)) ?_
    refine EStateM.bind_eq_of_ok (accept?_of_not (by simpa using startsExpression_not_var ht)) ?_
    exact EStateM.map_of_ok (hinner line notes) some

lemma Names.takes {count ts names ds} (h : Names count ts names ds) {closing : Token}
    (hclosing : closing.isSymbol .rightParen) (rest : List Token) (r k : Nat)
    (hr : (ts ++ closing :: rest).length ≤ r) :
    Takes (entries (expect (·.isIdentifier) .parameterNameExpected) .tooManyParameters r count)
      ts (closing :: rest) k names k ds := by
  have hname : ∀ {t : Token} (_ : t.isIdentifier) rest,
      Takes (expect (·.isIdentifier) .parameterNameExpected) [t] rest k t k [] := by
    intro t ht rest line notes
    rw [List.append_nil]
    exact expect_of_form ht _ rest line k notes
  induction h generalizing r with
  | @last count t ht =>
    have hlast := @entries_takes_last _ _ .tooManyParameters count _ _ _ _ _ _
      (List.cons_ne_nil t []) (hname ht (closing :: rest)) (isSymbol_ne hclosing (by decide)) r
    simpa using hlast
  | @more count t comma us names ds ht hcomma _ ih =>
    obtain ⟨r, rfl⟩ : ∃ r', r = r' + 1 := ⟨r - 1, by simp at hr; omega⟩
    have hmore := entries_takes_more (List.cons_ne_nil t []) (hname ht _) hcomma
      (ih r (by simp at hr ⊢; omega))
    simpa using hmore

lemma Parameters.takes {ts names ds} (h : Parameters ts names ds) {closing : Token}
    (hclosing : closing.isSymbol .rightParen) (rest : List Token) (r k : Nat)
    (hr : (ts ++ closing :: rest).length ≤ r) :
    Takes (entriesOrNone (expect (·.isIdentifier) .parameterNameExpected) .tooManyParameters r)
      ts (closing :: rest) k names k ds := by
  intro line notes
  cases h with
  | none =>
    refine EStateM.bind_eq_of_ok rfl ?_
    simp only [List.nil_append, List.head?_cons, Option.any_some, hclosing, List.append_nil]
    rfl
  | some h =>
    have hnames := h.takes hclosing rest r k hr line notes
    obtain ⟨t, us, rfl, ht⟩ : ∃ t us, ts = t :: us ∧ t.isIdentifier := by
      cases h with
      | last ht => exact ⟨_, _, rfl, ht⟩
      | more ht => exact ⟨_, _, rfl, ht⟩
    have hnot : t.isSymbol .rightParen = false := by
      rw [eq_identifier ht]
      rfl
    refine EStateM.bind_eq_of_ok rfl ?_
    simp only [List.cons_append, List.head?_cons, Option.any_some, hnot]
    exact hnames

lemma Superclass.takes {k ts parent k'} (h : Superclass k ts parent k') {opening : Token}
    (hopening : opening.isSymbol .leftBrace) (rest : List Token) :
    Takes superclass ts (opening :: rest) k parent k' [] := by
  intro line notes
  rw [List.append_nil]
  cases h with
  | none => exact EStateM.bind_eq_of_ok (accept?_of_not (isSymbol_ne hopening nofun)) rfl
  | some hsign hname =>
    refine EStateM.bind_eq_of_ok (accept?_of_form hsign _ _ _ _) ?_
    exact EStateM.bind_eq_of_ok (expect_of_form hname _ _ _ _ _) rfl

/-- A token that starts an expression leads to an expression statement. -/
lemma statementOver_of_startsExpression {t : Token} (h : t.startsExpression) (room : Nat)
    (statement : Parser Stmt) (item : Parser (Option Stmt)) (rest : List Token) (line k : Nat)
    (notes : List Diagnostic) :
    statementOver room statement item ⟨t :: rest, line, k, notes⟩ =
      expressionStatement room ⟨t :: rest, line, k, notes⟩ := by
  obtain ⟨kind, lexeme, line⟩ := t
  refine EStateM.bind_eq_of_ok rfl ?_
  dsimp only [List.head?_cons]
  split <;> first | rfl | cases h

lemma recover_congr {α : Type} {p q : Parser α} {s : State} (h : p s = q s) :
    recover p s = recover q s := by
  simp only [recover, h]

/-- A token that starts a statement leads to a statement. -/
lemma itemOver_of_startsStatement {t : Token} (h : t.startsStatement) (room : Nat)
    (statement : Parser Stmt) (item : Parser (Option Stmt)) (rest : List Token) (line k : Nat)
    (notes : List Diagnostic) :
    itemOver room statement item ⟨t :: rest, line, k, notes⟩ =
      recover (statementOver room statement item) ⟨t :: rest, line, k, notes⟩ := by
  apply recover_congr
  obtain ⟨kind, lexeme, line⟩ := t
  refine EStateM.bind_eq_of_ok rfl ?_
  dsimp only [List.head?_cons]
  split <;> first | rfl | cases h

lemma recover_takes {α : Type} {p : Parser α} {k ts a k' ds rest} (h : Takes p ts rest k a k' ds) :
    Takes (recover p) ts rest k (some a) k' ds := by
  intro line notes
  simp only [recover, h line notes]

lemma itemsUntil_takes_nil {α : Type} {stop : Token → Bool} {item : Parser (Option α)}
    {rest : List Token} (hrest : rest.head?.all stop) (room k : Nat) :
    Takes (itemsUntil stop item room) [] rest k [] k [] := by
  intro line notes
  rw [List.append_nil]
  cases room with
  | zero => rfl
  | succ room =>
    cases rest with
    | nil => rfl
    | cons t rest =>
      have ht : stop t := by simpa using hrest
      refine EStateM.bind_eq_of_ok rfl ?_
      simp only [List.nil_append, List.head?_cons, ht, if_true]
      rfl

lemma itemsUntil_takes_cons {α : Type} {stop : Token → Bool} {item : Parser (Option α)}
    {t : Token} {ts us rest : List Token} (ht : stop t = false) {k k₁ k' room : Nat} {a : α}
    {as : List α} {ds ds' : List Diagnostic}
    (ha : Takes item (t :: ts) (us ++ rest) k (some a) k₁ ds)
    (has : Takes (itemsUntil stop item room) us rest k₁ as k' ds') :
    Takes (itemsUntil stop item (room + 1)) (t :: ts ++ us) rest k (a :: as) k' (ds ++ ds') := by
  intro line notes
  refine EStateM.bind_eq_of_ok rfl ?_
  simp only [List.cons_append, List.head?_cons, ht]
  refine EStateM.bind_eq_of_ok (by simpa using ha line notes) ?_
  refine EStateM.bind_eq_of_ok (has line _) ?_
  rw [List.append_assoc]
  rfl

lemma Function.first {k ts decl k' ds} (h : Function k ts decl k' ds) :
    ∃ t us, ts = t :: us ∧ t.isIdentifier := by
  cases h with
  | mk h => exact ⟨_, _, rfl, h⟩

/-- A closing brace, or the end, stops declarations and starts none. -/
structure Closes (stop : Token → Bool) (rest : List Token) : Prop where
  stops : rest.head?.all stop
  noElse : NoElse rest
  starts : ∀ t : Token, t.startsDeclaration → stop t = false

lemma closes_of_rightBrace {closing : Token} (h : closing.isSymbol .rightBrace)
    (rest : List Token) : Closes (·.isSymbol .rightBrace) (closing :: rest) where
  stops := by simpa using h
  noElse := by
    rw [eq_symbol h]
    rfl
  starts := by
    intro t ht
    by_contra hbrace
    rw [Bool.not_eq_false] at hbrace
    rw [not_startsDeclaration_of_rightBrace hbrace] at ht
    cases ht

lemma closes_end : Closes (fun _ => false) [] where
  stops := rfl
  noElse := rfl
  starts := fun _ _ => rfl

/-- Declarations between braces, from what is known of them. -/
lemma block_takes {k ts body k' ds} {item : Parser (Option Stmt)} {room : Nat} {closing : Token}
    {rest : List Token} (hclosing : closing.isSymbol .rightBrace)
    (h : Takes (itemsUntil (·.isSymbol .rightBrace) item room) ts (closing :: rest) k body k' ds) :
    Takes (block room item) (ts ++ [closing]) rest k body k' ds := by
  intro line notes
  rw [List.append_assoc]
  refine EStateM.bind_eq_of_ok (h line notes) ?_
  exact EStateM.bind_eq_of_ok (expect_of_form hclosing _ _ _ _ _) rfl

/-- The clauses of a counting loop and its body, put together. -/
lemma forStatement_takes {k k₁ k₂ k₃ k₄ room : Nat} {statement : Parser Stmt}
    {opening semicolon closing : Token} {ts₁ ts₂ ts₃ us rest : List Token} {first : Option Stmt}
    {condition increment : Option Expr} {body : Stmt} {ds₁ ds₂ ds₃ ds₄ : List Diagnostic}
    (hopening : opening.isSymbol .leftParen)
    (hfirst : Takes (forInitializer room) ts₁ (ts₂ ++ semicolon :: ts₃ ++ closing :: us ++ rest)
      k first k₁ ds₁)
    (hcondition : Takes (expressionUnless room .semicolon) ts₂
      (semicolon :: (ts₃ ++ closing :: us ++ rest)) k₁ condition k₂ ds₂)
    (hsemicolon : semicolon.isSymbol .semicolon)
    (hincrement : Takes (expressionUnless room .rightParen) ts₃ (closing :: (us ++ rest))
      k₂ increment k₃ ds₃)
    (hclosing : closing.isSymbol .rightParen) (hbody : Takes statement us rest k₃ body k₄ ds₄) :
    Takes (forStatement room statement)
      (opening :: ts₁ ++ ts₂ ++ semicolon :: ts₃ ++ closing :: us) rest k
      (loopBlock (.loop (loopCondition k₄ condition).1 (loopBody body increment)) first)
      (loopCondition k₄ condition).2 (ds₁ ++ ds₂ ++ ds₃ ++ ds₄) := by
  intro line notes
  simp only [List.append_assoc, List.cons_append] at hfirst hcondition hincrement ⊢
  refine EStateM.bind_eq_of_ok (expect_of_form hopening _ _ _ _ _) ?_
  refine EStateM.bind_eq_of_ok (hfirst line notes) ?_
  refine EStateM.bind_eq_of_ok (hcondition line _) ?_
  refine EStateM.bind_eq_of_ok (expect_of_form hsemicolon _ _ _ _ _) ?_
  refine EStateM.bind_eq_of_ok (hincrement line _) ?_
  refine EStateM.bind_eq_of_ok (expect_of_form hclosing _ _ _ _ _) ?_
  refine EStateM.bind_eq_of_ok (hbody line _) ?_
  simp only [List.append_assoc]
  cases condition <;> cases increment <;> cases first <;> rfl

mutual

theorem Statement.takes {dangling k ts s k' ds} (h : Statement dangling k ts s k' ds) (room : Nat)
    (rest : List Token) (hroom : (ts ++ rest).length ≤ room) (hrest : dangling → NoElse rest) :
    Takes (statement room) ts rest k s k' ds := by
  obtain ⟨room, rfl⟩ : ∃ room', room = room' + 1 := by
    obtain ⟨t, us, rfl, -⟩ := h.first
    exact ⟨room - 1, by simp at hroom; omega⟩
  match h with
  | .expression he hsemicolon =>
    intro line notes
    have hstmt := expressionStatement_takes he hsemicolon (room + 1) rest (by simpa using hroom)
      line notes
    obtain ⟨t, us, rfl, ht⟩ := he.first
    exact (statementOver_of_startsExpression ht ..).trans hstmt
  | @Statement.print _ keyword ts e _ _ semicolon hkeyword he hsemicolon =>
    intro line notes
    have hinner := terminated_takes he hsemicolon (room + 1) .printEndExpected rest
      (by simp at hroom ⊢; omega) line notes
    rw [eq_keyword hkeyword]
    refine EStateM.bind_eq_of_ok rfl ?_
    refine EStateM.bind_eq_of_ok rfl ?_
    exact EStateM.bind_eq_of_ok hinner rfl
  | @Statement.ret _ keyword ts value _ _ semicolon hkeyword hvalue hsemicolon =>
    intro line notes
    have hinner := hvalue.takes hsemicolon (.inl rfl) (room + 1) rest
      (by simp at hroom ⊢; omega) line notes
    rw [List.append_assoc]
    conv_lhs => rw [eq_keyword hkeyword]
    refine EStateM.bind_eq_of_ok rfl ?_
    refine EStateM.bind_eq_of_ok rfl ?_
    refine EStateM.bind_eq_of_ok hinner ?_
    refine EStateM.bind_eq_of_ok (expect_of_form hsemicolon _ _ _ _ _) ?_
    rw [← eq_keyword hkeyword]
    rfl
  | @Statement.block _ opening ts body _ _ closing hopening hbody hclosing =>
    intro line notes
    have hinner := block_takes hclosing (hbody.takes room (room + 1) (closing :: rest)
      (by simp at hroom ⊢; omega) (by simp at hroom ⊢; omega) (closes_of_rightBrace hclosing rest))
    rw [eq_symbol hopening]
    refine EStateM.bind_eq_of_ok rfl ?_
    refine EStateM.bind_eq_of_ok rfl ?_
    exact EStateM.bind_eq_of_ok (hinner line notes) rfl
  | @Statement.loop _ _ keyword opening ts e k₁ ds₁ closing us body _ ds₂ hkeyword hopening he
      hclosing hbody =>
    intro line notes
    have hcondition := he.takes (room + 1) (closing :: us ++ rest) (by simp at hroom ⊢; omega)
      (endsHere_of_rightParen hclosing _)
    have hinner := hbody.takes room rest (by simp at hroom ⊢; omega) hrest
    rw [eq_keyword hkeyword, List.append_assoc]
    refine EStateM.bind_eq_of_ok rfl ?_
    refine EStateM.bind_eq_of_ok rfl ?_
    refine EStateM.bind_eq_of_ok (expect_of_form hopening _ _ _ _ _) ?_
    refine EStateM.bind_eq_of_ok (hcondition line notes) ?_
    refine EStateM.bind_eq_of_ok (expect_of_form hclosing _ _ _ _ _) ?_
    refine EStateM.bind_eq_of_ok (hinner line _) ?_
    rw [List.append_assoc]
    rfl
  | @Statement.count _ _ keyword opening ts₁ first k₁ ds₁ ts₂ condition k₂ ds₂ semicolon ts₃
      increment k₃ ds₃ closing us body k₄ ds₄ hkeyword hopening hfirst hcondition hsemicolon
      hincrement hclosing hbody =>
    have hfirst' := hfirst.takes (room + 1) (ts₂ ++ semicolon :: ts₃ ++ closing :: us ++ rest)
      (by simp at hroom ⊢; omega)
    have hcondition' := hcondition.takes hsemicolon (.inl rfl) (room + 1)
      (ts₃ ++ closing :: us ++ rest) (by simp at hroom ⊢; omega)
    have hincrement' := hincrement.takes hclosing (.inr rfl) (room + 1) (us ++ rest)
      (by simp at hroom ⊢; omega)
    have hinner := hbody.takes room rest (by simp at hroom ⊢; omega) hrest
    intro line notes
    rw [eq_keyword hkeyword]
    refine EStateM.bind_eq_of_ok rfl ?_
    refine EStateM.bind_eq_of_ok rfl ?_
    exact forStatement_takes hopening hfirst' hcondition' hsemicolon hincrement' hclosing hinner
      line notes
  | @Statement.ifThen dangling _ keyword opening ts e k₁ ds₁ closing us thenBranch _ ds₂ hkeyword
      hopening he hclosing hthen =>
    intro line notes
    have hcondition := he.takes (room + 1) (closing :: us ++ rest) (by simp at hroom ⊢; omega)
      (endsHere_of_rightParen hclosing _)
    have hinner := hthen.takes room rest (by simp at hroom ⊢; omega) (fun _ => hrest rfl)
    rw [eq_keyword hkeyword, List.append_assoc]
    refine EStateM.bind_eq_of_ok rfl ?_
    refine EStateM.bind_eq_of_ok rfl ?_
    refine EStateM.bind_eq_of_ok (expect_of_form hopening _ _ _ _ _) ?_
    refine EStateM.bind_eq_of_ok (hcondition line notes) ?_
    refine EStateM.bind_eq_of_ok (expect_of_form hclosing _ _ _ _ _) ?_
    refine EStateM.bind_eq_of_ok (hinner line _) ?_
    refine EStateM.bind_eq_of_ok (accept?_of_not (hrest rfl)) ?_
    rw [List.append_assoc]
    rfl
  | @Statement.ifElse dangling _ keyword opening ts e k₁ ds₁ closing us thenBranch k₂ ds₂ other vs
      elseBranch _ ds₃ hkeyword hopening he hclosing hthen hother helse =>
    intro line notes
    have hcondition := he.takes (room + 1) (closing :: us ++ (other :: vs ++ rest))
      (by simp at hroom ⊢; omega) (endsHere_of_rightParen hclosing _)
    have hinner := hthen.takes room (other :: vs ++ rest) (by simp at hroom ⊢; omega) nofun
    have hinner' := helse.takes room rest (by simp at hroom ⊢; omega) hrest
    rw [eq_keyword hkeyword, List.append_assoc, List.append_assoc]
    refine EStateM.bind_eq_of_ok rfl ?_
    refine EStateM.bind_eq_of_ok rfl ?_
    refine EStateM.bind_eq_of_ok (expect_of_form hopening _ _ _ _ _) ?_
    refine EStateM.bind_eq_of_ok (hcondition line notes) ?_
    refine EStateM.bind_eq_of_ok (expect_of_form hclosing _ _ _ _ _) ?_
    refine EStateM.bind_eq_of_ok (hinner line _) ?_
    refine EStateM.bind_eq_of_ok (accept?_of_form hother _ _ _ _) ?_
    refine EStateM.bind_eq_of_ok (hinner' line _) ?_
    simp only [List.append_assoc]
    rfl

theorem Declaration.takes {dangling k ts s k' ds} (h : Declaration dangling k ts s k' ds)
    (room : Nat) (rest : List Token) (hroom : (ts ++ rest).length ≤ room)
    (hrest : dangling → NoElse rest) : Takes (item room) ts rest k (some s) k' ds := by
  obtain ⟨room, rfl⟩ : ∃ room', room = room' + 1 := by
    obtain ⟨t, us, rfl, -⟩ := h.first
    exact ⟨room - 1, by simp at hroom; omega⟩
  match h with
  | @Declaration.classDecl _ keyword name ts parent k₁ opening us methods _ _ closing hkeyword hname
      hparent hopening hmethods hclosing =>
    apply recover_takes
    intro line notes
    have hsuper := hparent.takes hopening (us ++ closing :: rest)
    have hinner := hmethods.takes room (room + 1) (room + 1) (closing :: rest)
      (by simp at hroom ⊢; omega) (by simp at hroom ⊢; omega) (by simp at hroom ⊢; omega)
      (closes_of_rightBrace hclosing rest)
    rw [eq_keyword hkeyword, List.append_assoc, List.append_assoc]
    refine EStateM.bind_eq_of_ok rfl ?_
    refine EStateM.bind_eq_of_ok rfl ?_
    refine EStateM.bind_eq_of_ok (expect_of_form hname _ _ _ _ _) ?_
    refine EStateM.bind_eq_of_ok (hsuper line notes) ?_
    rw [List.append_nil]
    refine EStateM.bind_eq_of_ok (expect_of_form hopening _ _ _ _ _) ?_
    refine EStateM.bind_eq_of_ok (hinner line notes) ?_
    exact EStateM.bind_eq_of_ok (expect_of_form hclosing _ _ _ _ _) rfl
  | @Declaration.funDecl _ keyword ts decl _ _ hkeyword hdecl =>
    apply recover_takes
    intro line notes
    have hinner := hdecl.takes room (room + 1) .function rest (by simp at hroom ⊢; omega)
      (by simp at hroom ⊢; omega)
    rw [eq_keyword hkeyword]
    refine EStateM.bind_eq_of_ok rfl ?_
    refine EStateM.bind_eq_of_ok rfl ?_
    exact EStateM.bind_eq_of_ok (hinner line notes) rfl
  | @Declaration.varDecl _ keyword ts s _ _ hkeyword h =>
    apply recover_takes
    intro line notes
    have hinner := h.takes (room + 1) rest (by simp at hroom ⊢; omega)
    rw [eq_keyword hkeyword]
    refine EStateM.bind_eq_of_ok rfl ?_
    refine EStateM.bind_eq_of_ok rfl ?_
    exact hinner line notes
  | .statement h =>
    intro line notes
    have hinner := recover_takes (h.takes (room + 1) rest hroom hrest) line notes
    obtain ⟨t, us, rfl, ht⟩ := h.first
    exact (itemOver_of_startsStatement ht ..).trans hinner

theorem Declarations.takes {k ts ss k' ds} (h : Declarations k ts ss k' ds) (room r : Nat)
    (rest : List Token) (hroom : (ts ++ rest).length ≤ room) (hr : ts.length ≤ r)
    {stop : Token → Bool} (hrest : Closes stop rest) :
    Takes (itemsUntil stop (item room) r) ts rest k ss k' ds := by
  match h with
  | .nil => exact itemsUntil_takes_nil hrest.stops r _
  | @Declarations.cons dangling _ ts s k₁ ds₁ us ss _ ds₂ hs hss =>
    have hfirst := hs.takes room (us ++ rest) (by simpa using hroom)
      (fun _ => hss.noElse hrest.noElse)
    obtain ⟨t, vs, rfl, ht⟩ := hs.first
    obtain ⟨r, rfl⟩ : ∃ r', r = r' + 1 := ⟨r - 1, by simp at hr; omega⟩
    have hmore := hss.takes room r rest (by simp at hroom ⊢; omega) (by simp at hr ⊢; omega) hrest
    exact itemsUntil_takes_cons (hrest.starts t ht) hfirst hmore

theorem Function.takes {k ts decl k' ds} (h : Function k ts decl k' ds) (room r : Nat)
    (kind : Routine) (rest : List Token) (hroom : (ts ++ rest).length ≤ room + 1)
    (hr : (ts ++ rest).length ≤ r) :
    Takes (routine r kind (item room)) ts rest k decl k' ds := by
  match h with
  | @Function.mk _ name opening ts params ds₁ closing brace us body _ ds₂ closing' hname hopening
      hparams hclosing hbrace hbody hclosing' =>
    intro line notes
    have hnames := hparams.takes hclosing (brace :: us ++ closing' :: rest) r k
      (by simp at hr ⊢; omega)
    have hinner := block_takes hclosing' (hbody.takes room r (closing' :: rest)
      (by simp at hroom ⊢; omega) (by simp at hr ⊢; omega) (closes_of_rightBrace hclosing' rest))
    have happ : name :: opening :: ts ++ closing :: brace :: us ++ [closing'] ++ rest =
      name :: opening :: (ts ++ closing :: brace :: (us ++ [closing'] ++ rest)) := by simp
    rw [happ]
    refine EStateM.bind_eq_of_ok (expect_of_form hname _ _ _ _ _) ?_
    refine EStateM.bind_eq_of_ok (expect_of_form hopening _ _ _ _ _) ?_
    refine EStateM.bind_eq_of_ok (by simpa using hnames line notes) ?_
    refine EStateM.bind_eq_of_ok (expect_of_form hclosing _ _ _ _ _) ?_
    refine EStateM.bind_eq_of_ok (expect_of_form hbrace _ _ _ _ _) ?_
    refine EStateM.bind_eq_of_ok (by simpa using hinner line _) ?_
    rw [List.append_assoc]
    rfl

theorem Functions.takes {k ts decls k' ds} (h : Functions k ts decls k' ds) (room r n : Nat)
    (rest : List Token) (hroom : (ts ++ rest).length ≤ room + 1) (hr : (ts ++ rest).length ≤ r)
    (hn : ts.length ≤ n) (hrest : Closes (·.isSymbol .rightBrace) rest) :
    Takes (itemsUntil (·.isSymbol .rightBrace) (some <$> routine r .method (item room)) n)
      ts rest k decls k' ds := by
  match h with
  | .nil => exact itemsUntil_takes_nil hrest.stops n _
  | @Functions.cons _ ts decl k₁ ds₁ us decls _ ds₂ hdecl hdecls =>
    have hfirst :
        Takes (some <$> routine r .method (item room)) ts (us ++ rest) k (some decl) k₁ ds₁ :=
      fun line notes => EStateM.map_of_ok (hdecl.takes room r .method (us ++ rest)
        (by simpa using hroom) (by simpa using hr) line notes) some
    obtain ⟨name, vs, rfl, hname⟩ := hdecl.first
    obtain ⟨n, rfl⟩ : ∃ n', n = n' + 1 := ⟨n - 1, by simp at hn; omega⟩
    have hmore := hdecls.takes room r n rest (by simp at hroom ⊢; omega) (by simp at hr ⊢; omega)
      (by simp at hn ⊢; omega) hrest
    have hnot : name.isSymbol .rightBrace = false := by
      rw [eq_identifier hname]
      rfl
    exact itemsUntil_takes_cons hnot hfirst hmore

end

end Reading

namespace Parser

open Reading

/-- A program that is read without a note is read to the end: each declaration takes a token. -/
lemma itemsUntil_rest (room r : Nat) {s s' : State} {ss : List Stmt}
    (h : itemsUntil (fun _ => false) (item room) r s = .ok ss s') (hd : s'.diagnostics = [])
    (hr : s.rest.length ≤ r) : s'.rest = [] := by
  induction r generalizing s ss with
  | zero =>
    obtain ⟨rfl, rfl⟩ := EStateM.pure_eq_ok h
    exact List.length_eq_zero_iff.mp (Nat.le_zero.mp hr)
  | succ r ih =>
    obtain ⟨t, s₁, h₁, h⟩ := EStateM.bind_eq_ok h
    obtain ⟨rfl, rfl⟩ := peek?_eq_ok h₁
    cases hs : s₁.rest with
    | nil =>
      rw [hs] at h
      obtain ⟨rfl, rfl⟩ := EStateM.pure_eq_ok h
      exact hs
    | cons t ts =>
      rw [hs] at h
      have hitem := (statement_item_reads room).2
      obtain ⟨first, s₂, h₂, h⟩ := EStateM.bind_eq_ok h
      obtain ⟨more, s₃, h₃, h⟩ := EStateM.bind_eq_ok h
      obtain ⟨rfl, rfl⟩ := EStateM.pure_eq_ok h
      obtain ⟨us, k, hs₂, -⟩ := declarations_reads _ hitem r _ h₃ hd
      obtain ⟨vs, k₀, rfl, d, rfl, dangling, hdecl⟩ := hitem _ h₂ (by rw [hs₂])
      obtain ⟨u, ws, rfl, -⟩ := hdecl.first
      refine ih h₃ ?_
      simp at hr
      omega

end Parser

/-- Parsing succeeds with a program exactly when the tokens before the end read as it without a
note. -/
theorem parse_eq_ok_iff {tokens : List Token} {k k' : ExprId} {program : List Stmt} :
    parse tokens k = ⟨.ok program, k'⟩ ↔
      Reading.Declarations k (tokens.takeWhile (·.kind ≠ .eof)) program k' [] := by
  have hlen : (tokens.takeWhile (·.kind ≠ .eof)).length ≤ tokens.length :=
    (List.takeWhile_prefix _).length_le
  constructor
  · intro h
    unfold parse at h
    split at h
    · rename_i statements s' hrun
      split at h
      · rename_i hempty
        have hd : s'.diagnostics = [] := List.isEmpty_iff.mp hempty
        obtain ⟨rfl, rfl⟩ : statements = program ∧ s'.nextId = k' := by simpa using h
        obtain ⟨ts, k₀, hs, hread⟩ := Parser.program_reads _ _ hrun hd
        have hrest := Parser.itemsUntil_rest _ _ hrun hd hlen
        obtain ⟨hts, -, rfl⟩ : tokens.takeWhile (·.kind ≠ .eof) = ts ++ s'.rest ∧ _ ∧ k = k₀ := by
          simpa [Parser.State.start] using hs
        rw [hts, hrest, List.append_nil]
        exact hread
      · simp at h
    · simp at h
  · intro h
    have hrun := h.takes tokens.length tokens.length [] (by simpa using hlen) hlen
      Reading.closes_end
    have hprogram := hrun (Parser.State.start tokens k).endLine []
    rw [List.append_nil] at hprogram
    have hok : Parser.program tokens.length (Parser.State.start tokens k) =
      .ok program ⟨[], (Parser.State.start tokens k).endLine, k', []⟩ := hprogram
    rw [parse, hok]
    rfl

end GermanLox
