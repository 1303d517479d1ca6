import GermanLox.Proofs.Cursor.Agreement

/-!
# Every production over the buffer follows the one over the tokens left
-/

namespace GermanLox
namespace Parser

variable {α : Type}

/-- Goes on with the next token if it is of a given form, and without it otherwise. -/
def given (form : Token → Bool) (yes : Token → Parser α) (no : Parser α) : Parser α := do
  let r ← accept? form
  r.elim no yes

/-- Parsers that agree at the end and in front of a token of every kind are the same. -/
lemma ext_kind {p q : Parser α}
    (hnil : ∀ line k notes, p ⟨[], line, k, notes⟩ = q ⟨[], line, k, notes⟩)
    (hcons : ∀ kind lexeme place ts line k notes,
      p ⟨⟨kind, lexeme, place⟩ :: ts, line, k, notes⟩ =
        q ⟨⟨kind, lexeme, place⟩ :: ts, line, k, notes⟩) : p = q := by
  funext s
  obtain ⟨rest, line, k, notes⟩ := s
  cases rest with
  | nil => exact hnil line k notes
  | cons t ts => exact hcons t.kind t.lexeme t.line ts line k notes

/-- The forms of a primary are tried one after the other. -/
lemma primary_eq_given (inner : Parser Expr) :
    primary inner =
      (given (fun t => (Literal.ofKind? t.kind).isSome)
        (fun t => (Literal.ofKind? t.kind).elim (fail .expressionExpected) fun value => do
          return .literal (← freshId) value) <|
      given (·.isKeyword .super)
        (fun keyword => do
          let _ ← expect (·.isSymbol .dot) .superDotExpected
          let method ← expect (·.isIdentifier) .superMethodExpected
          return .super (← freshId) keyword method) <|
      given (·.isKeyword .dies) (fun keyword => do return .this (← freshId) keyword) <|
      given (·.isIdentifier) (fun name => do return .var (← freshId) name) <|
      given (·.isSymbol .leftParen)
        (fun _ => do
          let e ← inner
          let _ ← expect (·.isSymbol .rightParen) .groupingEndExpected
          return .grouping (← freshId) e) <|
      fail .expressionExpected) := by
  refine ext_kind (fun _ _ _ => rfl) fun kind _ _ _ _ _ _ => ?_
  cases kind with
  | keyword w => cases w <;> rfl
  | symbol s => cases s <;> rfl
  | _ => rfl

lemma operands_eq_given (level : Precedence) (operand : Parser Expr) (room : Nat) (left : Expr) :
    operands level operand (room + 1) left =
      given (fun t => (Operator.at? level t).isSome)
        (fun t => do
          let right ← operand
          (Operator.at? level t).elim (return left) fun op => do
            operands level operand room (op.apply (← freshId) t left right))
        (return left) := by
  funext s
  obtain ⟨rest, line, k, notes⟩ := s
  cases rest with
  | nil => rfl
  | cons t ts =>
    rw [operands, EStateM.bind_of_ok (peek?_cons t ts line k notes)]
    dsimp only
    unfold given
    cases hop : Operator.at? level t with
    | none =>
      rw [EStateM.bind_of_ok (accept?_of_not (by simp [hop]))]
      rfl
    | some op =>
      rw [EStateM.bind_of_ok (accept?_of_form (by simp [hop]) ts line k notes)]
      simp only [Option.elim_some, hop]
      rfl

/-- The signs in front of an operand are read before it and applied after it. -/
def signedOperand (room : Nat) (operand : Parser Expr) : Parser Expr := do
  let ops ← signs room
  let e ← operand
  signed ops e

lemma signedOperand_zero (operand : Parser Expr) : signedOperand 0 operand = operand := by
  simp [signedOperand, signs, signed]

/-- A sign goes in front of a signed operand. -/
lemma signedOperand_succ (room : Nat) (operand : Parser Expr) :
    signedOperand (room + 1) operand =
      given (fun t => (UnaryOp.ofKind? t.kind).isSome)
        (fun t => do
          let e ← signedOperand room operand
          (UnaryOp.ofKind? t.kind).elim (return e) fun op => do return .unary (← freshId) op t e)
        operand := by
  unfold signedOperand given
  rw [signs, bind_assoc]
  congr 1
  funext r
  cases r with
  | none => simp [signed]
  | some t =>
    cases hop : UnaryOp.ofKind? t.kind with
    | none => simp [hop]
    | some op => simp [hop, signed]

lemma statementOver_eq_given (room : Nat) (statement : Parser Stmt) (item : Parser (Option Stmt)) :
    statementOver room statement item =
      (given (·.isKeyword .fuer) (fun _ => forStatement room statement) <|
      given (·.isKeyword .wenn) (fun _ => ifStatement room statement) <|
      given (·.isKeyword .waehrend) (fun _ => whileStatement room statement) <|
      given (·.isKeyword .zurueckgeben) (returnStatement room) <|
      given (·.isSymbol .leftBrace) (fun _ => do return .block (← block room item)) <|
      given (·.isKeyword .drucke) (fun _ => printStatement room) <|
      expressionStatement room) := by
  refine ext_kind (fun _ _ _ => rfl) fun kind _ _ _ _ _ _ => ?_
  cases kind with
  | keyword w => cases w <;> rfl
  | symbol s => cases s <;> rfl
  | _ => rfl

lemma itemOver_eq_given (room : Nat) (statement : Parser Stmt) (item : Parser (Option Stmt)) :
    itemOver room statement item =
      recover (given (·.isKeyword .klasse) (fun _ => classDeclaration room item) <|
        given (·.isKeyword .funktion)
          (fun _ => do return .funDecl (← routine room .function item)) <|
        given (·.isKeyword .var) (fun _ => varDeclaration room) <|
        statementOver room statement item) := by
  unfold itemOver
  congr 1
  refine ext_kind (fun _ _ _ => rfl) fun kind _ _ _ _ _ _ => ?_
  cases kind with
  | keyword w => cases w <;> rfl
  | symbol s => cases s <;> rfl
  | _ => rfl

end Parser

namespace Marked.Follows

open Cursor (Walk)

variable {α : Type} {b : Marked} {l d n r : Nat}

lemma given {form : Token → Bool} {yes : Token → Walk α} {yes' : Token → Parser α} {no : Walk α}
    {no' : Parser α} (hyes : ∀ t k, form t → k < l → b.Follows k (d - 1) (yes t) (yes' t))
    (hno : b.Follows l d no no') :
    b.Follows l d (Cursor.given form yes no) (Parser.given form yes' no') :=
  accept hno hyes

/-- Where nothing is left, only what a parser does at the end matters. -/
lemma congr_end {x : Walk α} {p q : Parser α} (h : b.Follows 0 d x p)
    (hpq : ∀ line k notes, p ⟨[], line, k, notes⟩ = q ⟨[], line, k, notes⟩) :
    b.Follows 0 d x q := by
  intro c hc hleft
  have hview : b.view c = ⟨[], b.mark.line, c.nextId, c.diagnostics⟩ := by
    have hrest : b.before.drop c.place = [] := by
      rw [List.drop_eq_nil_iff]
      simp only [left] at hleft
      omega
    rw [view, hrest]
  rw [hview, ← hpq, ← hview]
  exact h c hc hleft

section Expressions

variable {inner : Walk Expr} {inner' : Parser Expr}

lemma primary (h : ∀ k < l, b.Follows k 1 inner inner') :
    b.Follows l 1 (Cursor.primary inner) (Parser.primary inner') := by
  rw [Parser.primary_eq_given]
  refine given (fun t _ _ _ => ?_) <|
    given (fun _ _ _ _ =>
      (expect _ _).lax.andThen fun _ => (expect _ _).lax.andThen fun _ => node _) <|
    given (fun _ _ _ _ => node _) <|
    given (fun _ _ _ _ => node _) <|
    given (fun _ k _ hk =>
      (h k hk).lax.andThen fun _ => (expect _ _).lax.andThen fun _ => node _) <|
    fail _
  cases Literal.ofKind? t.kind with
  | none => exact fail _
  | some value => exact node _

lemma suffixes (h : ∀ k < l, b.Follows k 1 inner inner') (hn : l < n) (hr : l ≤ r) (e : Expr) :
    b.Follows l 0 (Cursor.suffixes inner n e) (Parser.suffixes inner' r e) := by
  induction n generalizing l r e with
  | zero => omega
  | succ n ih =>
    cases r with
    | zero =>
      obtain rfl : l = 0 := by omega
      exact accept_none (accept_none (pure e))
    | succ r =>
      have hrest : ∀ k < l, ∀ e, b.Follows k 0 (Cursor.suffixes inner n e)
          (Parser.suffixes inner' r e) :=
        fun k hk e => ih (fun j hj => h j (by omega)) (by omega) (by omega) e
      refine accept (accept (pure e) fun t k _ hk => ?_) fun t k _ hk => ?_
      · exact (expect _ _).lax.andThen fun _ => freshId.andThen fun _ => hrest k hk _
      · exact ((h k hk).entriesOrNone _ (by omega) (by omega)).andThen fun _ =>
          (expect _ _).lax.andThen fun _ => freshId.andThen fun _ => hrest k hk _

lemma call (h : ∀ k < l, b.Follows k 1 inner inner') (hn : l < n) (hr : l ≤ r) :
    b.Follows l 1 (Cursor.call n inner) (Parser.call r inner') :=
  (primary h).andThen fun e => suffixes h hn hr e

lemma unary {operand : Walk Expr} {operand' : Parser Expr} {m : Nat}
    (h : b.Follows m 1 operand operand') (hm : l ≤ m) (hn : l < n) (hr : l ≤ r) :
    b.Follows l 1 (Cursor.unary operand n) (Parser.signedOperand r operand') := by
  have hoperand : b.Follows l 1 operand operand' := h.mono hm (Nat.le_refl 1)
  induction n generalizing l r with
  | zero => omega
  | succ n ih =>
    cases r with
    | zero =>
      obtain rfl : l = 0 := by omega
      rw [Parser.signedOperand_zero]
      exact accept_none hoperand
    | succ r =>
      rw [Parser.signedOperand_succ]
      refine accept hoperand fun t k ht hk => ?_
      have hrest := ih (l := k) (r := r) (by omega) (by omega) (by omega)
        (h.mono (by omega) (Nat.le_refl 1))
      refine hrest.lax.andThen fun e => ?_
      cases UnaryOp.ofKind? t.kind with
      | none => exact pure e
      | some op => exact node _

lemma operands (p : Precedence) {operand : Walk Expr} {operand' : Parser Expr} {m : Nat}
    (h : b.Follows m 1 operand operand') (hm : l ≤ m) (hn : l < n) (hr : l ≤ r) (left : Expr) :
    b.Follows l 0 (Cursor.operands p operand n left) (Parser.operands p operand' r left) := by
  induction n generalizing l r left with
  | zero => omega
  | succ n ih =>
    cases r with
    | zero =>
      obtain rfl : l = 0 := by omega
      exact accept_none (pure left)
    | succ r =>
      rw [Parser.operands_eq_given]
      refine accept (pure left) fun t k _ hk => ?_
      have hoperand : b.Follows k 1 operand operand' := h.mono (by omega) (Nat.le_refl 1)
      refine hoperand.lax.andThen fun right => ?_
      cases Operator.at? p t with
      | none => exact pure left
      | some op => exact freshId.andThen fun _ => ih (by omega) (by omega) (by omega) _

lemma operation (h : ∀ k < l, b.Follows k 1 inner inner') (hn : l < n) (hr : l ≤ r)
    (ps : List Precedence) :
    b.Follows l 1 (Cursor.operation n inner ps) (Parser.towerOf r inner' ps) := by
  induction ps with
  | nil => exact unary (call h hn hr) (Nat.le_refl l) hn hr
  | cons p ps ih => exact ih.andThen fun first => operands p ih (Nat.le_refl l) hn hr first

lemma assignment (h : ∀ k < l, b.Follows k 1 inner inner') (hn : l < n) (hr : l ≤ r) :
    b.Follows l 1 (Cursor.assignment n inner) (Parser.assignment r inner') := by
  refine (operation h hn hr Precedence.tower).andThen fun target => ?_
  refine accept (pure target) fun sign k _ hk => ?_
  refine (h k hk).lax.andThen fun value => ?_
  cases target with
  | var => exact node _
  | get => exact node _
  | _ => exact (note _ _).andThen fun _ => pure _

lemma expression (hn : l < n) (hr : l ≤ r) :
    b.Follows l 1 (Cursor.expression n) (Parser.expression r) := by
  induction n generalizing l r with
  | zero => omega
  | succ n ih =>
    cases r with
    | zero =>
      obtain rfl : l = 0 := by omega
      have hone : b.Follows 0 1 (Cursor.expression (n + 1)) (Parser.expression 1) :=
        assignment (fun k hk => absurd hk (Nat.not_lt_zero k)) hn (Nat.zero_le 1)
      exact hone.congr_end fun _ _ _ => rfl
    | succ r => exact assignment (fun k hk => ih (by omega) (by omega)) hn hr

end Expressions

lemma terminated (hn : l < n) (hr : l ≤ r) (cause : SyntaxFault) :
    b.Follows l 1 (Cursor.terminated n cause) (Parser.terminated r cause) :=
  (expression hn hr).andThen fun _ => (expect _ _).lax.andThen fun _ => pure _

lemma expressionUnless (hn : l < n) (hr : l ≤ r) (stop : Symbol) :
    b.Follows l 0 (Cursor.expressionUnless n stop) (Parser.expressionUnless r stop) := by
  refine check fun stops => ?_
  cases stops with
  | true => exact pure _
  | false => exact (expression hn hr).lax.andThen fun _ => pure _

lemma expressionStatement (hn : l < n) (hr : l ≤ r) :
    b.Follows l 1 (Cursor.expressionStatement n) (Parser.expressionStatement r) :=
  (terminated hn hr _).andThen fun _ => pure _

lemma varDeclaration (hn : l < n) (hr : l ≤ r) :
    b.Follows l 1 (Cursor.varDeclaration n) (Parser.varDeclaration r) := by
  refine (expect _ _).andThen fun name => accept ?_ fun _ k _ hk => ?_
  · exact (pure none).andThen fun _ => (expect _ _).lax.andThen fun _ => pure _
  · exact ((expression (by omega) (by omega)).lax.map some).andThen fun _ =>
      (expect _ _).lax.andThen fun _ => pure _

section Statements

variable {statement : Walk Stmt} {statement' : Parser Stmt} {item : Walk (Option Stmt)}
  {item' : Parser (Option Stmt)}

lemma block (h : b.Follows l 1 item item') (hn : l < n) (hr : l ≤ r) :
    b.Follows l 0 (Cursor.block n item) (Parser.block r item') :=
  (h.itemsUntil _ hn hr).andThen fun _ => (expect _ _).lax.andThen fun _ => pure _

lemma routine (h : b.Follows l 1 item item') (hn : l < n) (hr : l ≤ r) (kind : Routine) :
    b.Follows l 1 (Cursor.routine n kind item) (Parser.routine r kind item') := by
  have hparams : b.Follows l 0
      (Cursor.entriesOrNone (Cursor.expect (·.isIdentifier) .parameterNameExpected)
        .tooManyParameters n)
      (Parser.entriesOrNone (Parser.expect (·.isIdentifier) .parameterNameExpected)
        .tooManyParameters r) :=
    (expect _ _).entriesOrNone _ hn hr
  exact (expect _ _).andThen fun _ => (expect _ _).lax.andThen fun _ => hparams.andThen fun _ =>
    (expect _ _).lax.andThen fun _ => (expect _ _).lax.andThen fun _ =>
    (block h hn hr).andThen fun _ => pure _

lemma superclass : b.Follows l 0 Cursor.superclass Parser.superclass :=
  accept (pure none) fun _ _ _ _ => (expect _ _).lax.andThen fun _ => node _

lemma classDeclaration (h : b.Follows l 1 item item') (hn : l < n) (hr : l ≤ r) :
    b.Follows l 0 (Cursor.classDeclaration n item) (Parser.classDeclaration r item') := by
  have hmethods := ((routine h hn hr .method).map some).itemsUntil (·.isSymbol .rightBrace) hn hr
  exact (expect _ _).lax.andThen fun _ => superclass.andThen fun _ =>
    (expect _ _).lax.andThen fun _ => hmethods.andThen fun _ =>
      (expect _ _).lax.andThen fun _ => pure _

lemma forInitializer (hn : l < n) (hr : l ≤ r) :
    b.Follows l 0 (Cursor.forInitializer n) (Parser.forInitializer r) := by
  refine accept (accept ?_ fun _ k _ hk => ?_) fun _ _ _ _ => pure none
  · exact (expressionStatement hn hr).lax.map some
  · exact (varDeclaration (by omega) (by omega)).lax.map some

lemma forStatement (h : b.Follows l 1 statement statement') (hn : l < n) (hr : l ≤ r) :
    b.Follows l 0 (Cursor.forStatement n statement) (Parser.forStatement r statement') := by
  refine (expect _ _).lax.andThen fun _ => (forInitializer hn hr).andThen fun initializer =>
    (expressionUnless hn hr _).andThen fun condition => (expect _ _).lax.andThen fun _ =>
    (expressionUnless hn hr _).andThen fun increment => (expect _ _).lax.andThen fun _ =>
    h.lax.andThen fun body => ?_
  cases condition with
  | none =>
    refine (freshId.map _).andThen fun condition => ?_
    cases initializer with
    | none => exact pure _
    | some first => exact pure _
  | some e =>
    refine (pure e).andThen fun condition => ?_
    cases initializer with
    | none => exact pure _
    | some first => exact pure _

lemma ifStatement (h : b.Follows l 1 statement statement') (hn : l < n) (hr : l ≤ r) :
    b.Follows l 0 (Cursor.ifStatement n statement) (Parser.ifStatement r statement') := by
  refine (expect _ _).lax.andThen fun _ => (expression hn hr).lax.andThen fun _ =>
    (expect _ _).lax.andThen fun _ => h.lax.andThen fun _ => accept (pure _) fun _ k _ hk => ?_
  exact (h.mono (by omega) (Nat.zero_le 1)).andThen fun _ => pure _

lemma whileStatement (h : b.Follows l 1 statement statement') (hn : l < n) (hr : l ≤ r) :
    b.Follows l 0 (Cursor.whileStatement n statement) (Parser.whileStatement r statement') :=
  (expect _ _).lax.andThen fun _ => (expression hn hr).lax.andThen fun _ =>
    (expect _ _).lax.andThen fun _ => h.lax.andThen fun _ => pure _

lemma returnStatement (hn : l < n) (hr : l ≤ r) (keyword : Token) :
    b.Follows l 0 (Cursor.returnStatement n keyword) (Parser.returnStatement r keyword) :=
  (expressionUnless hn hr _).andThen fun _ => (expect _ _).lax.andThen fun _ => pure _

lemma statementOver (h : ∀ k < l, b.Follows k 1 statement statement')
    (hitem : ∀ k < l, b.Follows k 1 item item') (hn : l < n) (hr : l ≤ r) :
    b.Follows l 1 (Cursor.statementOver n statement item)
      (Parser.statementOver r statement' item') := by
  rw [Parser.statementOver_eq_given]
  exact given (fun _ k _ hk => forStatement (h k hk) (by omega) (by omega)) <|
    given (fun _ k _ hk => ifStatement (h k hk) (by omega) (by omega)) <|
    given (fun _ k _ hk => whileStatement (h k hk) (by omega) (by omega)) <|
    given (fun _ k _ hk => returnStatement (by omega) (by omega) _) <|
    given (fun _ k _ hk => (block (hitem k hk) (by omega) (by omega)).andThen fun _ => pure _) <|
    given (fun _ k _ hk => (terminated (by omega) (by omega) _).lax.andThen fun _ => pure _) <|
    expressionStatement hn hr

end Statements

end Marked.Follows

namespace Cursor

variable {α : Type}

lemma tryCatch_of_ok {x : Walk α} {c c' : Cursor} {a : α} (h : x c = some (.ok a, c'))
    (f : Diagnostic → Walk α) : tryCatch x f c = some (.ok a, c') := by
  change (x c).bind _ = _
  rw [h]
  rfl

lemma tryCatch_of_error {x : Walk α} {c c' : Cursor} {d : Diagnostic}
    (h : x c = some (.error d, c')) (f : Diagnostic → Walk α) : tryCatch x f c = f d c' := by
  change (x c).bind _ = _
  rw [h]
  rfl

end Cursor

namespace Marked

open Cursor (Walk)

variable {b : Marked} {n : Nat} {c : Cursor}

lemma Holds.previous_token (h : b.Holds c) {t : Token} (ht : b.before[c.place - 1]? = some t) :
    Cursor.previous c = some (.ok t, c) := by
  simp only [Cursor.previous, Cursor.look, h.getElem?_token ht, Option.map_some]

/-- On the mark there is always a token to look back at, the mark itself in an empty buffer. -/
lemma Holds.exists_advance_mark (h : b.Holds c) (hmark : c.place = b.before.length) :
    ∃ t, Cursor.advance c = some (.ok t, c) := by
  have hlt : c.place - 1 < c.tokens.length := by
    rw [h.tokens, all, hmark]
    simp only [List.length_append, List.length_cons]
    omega
  refine ⟨c.tokens[c.place - 1], ?_⟩
  unfold Cursor.advance
  rw [ExceptT.bind_of_ok (h.atEnd_mark hmark)]
  simp only [if_true, Cursor.previous, Cursor.look, List.getElem?_eq_getElem hlt, Option.map_some]

/-- Skipping stops where the next statement starts. -/
lemma Holds.exists_skip (h : b.Holds c) {previous : Token}
    (hprevious : b.before[c.place - 1]? = some previous) (hn : b.left c < n) :
    ∃ c', Cursor.skip n c = some (.ok (), c') ∧ b.Holds c' ∧ b.left c' ≤ b.left c ∧
      b.view c' =
        { b.view c with rest := Parser.statementBoundary previous (b.view c).rest } := by
  induction n generalizing c previous with
  | zero => omega
  | succ n ih =>
    unfold Cursor.skip
    rcases h.mark_or_token with hmark | ⟨t, ht⟩
    · rw [ExceptT.bind_of_ok (h.atEnd_mark hmark)]
      refine ⟨c, rfl, h, Nat.le_refl _, ?_⟩
      rw [rest_mark hmark, Parser.statementBoundary, ← rest_mark hmark]
    · have hstep := left_step ht
      rw [ExceptT.bind_of_ok (h.atEnd_token ht)]
      simp only [Bool.false_eq_true, if_false]
      rw [ExceptT.bind_of_ok (h.previous_token hprevious)]
      have hstop : (previous.isSymbol .semicolon || Parser.startsStatement t) = true →
          Parser.statementBoundary previous (b.view c).rest = (b.view c).rest := by
        intro hstop
        rw [rest_token ht, Parser.statementBoundary, if_pos hstop]
      by_cases hsemicolon : previous.isSymbol .semicolon
      · rw [if_pos hsemicolon]
        exact ⟨c, rfl, h, Nat.le_refl _, by rw [hstop (by simp [hsemicolon])]⟩
      · rw [if_neg hsemicolon, ExceptT.bind_of_ok (h.peek_token ht)]
        by_cases hstarts : Parser.startsStatement t
        · rw [if_pos hstarts]
          exact ⟨c, rfl, h, Nat.le_refl _, by rw [hstop (by simp [hstarts])]⟩
        · rw [if_neg hstarts, ExceptT.bind_of_ok (h.advance_token ht)]
          have hlast : b.before[c.place + 1 - 1]? = some t := ht
          obtain ⟨c', hskip, hc', hleft, hview⟩ := ih (h.step ht) hlast (by omega)
          refine ⟨c', hskip, hc', by omega, ?_⟩
          rw [hview, rest_token ht, Parser.statementBoundary,
            if_neg (by simp [hsemicolon, hstarts])]
          rfl

/-- Skipping leaves fewer tokens if there are any. -/
lemma Holds.exists_synchronize (h : b.Holds c) (hn : b.left c < n) :
    ∃ c', Cursor.synchronize n c = some (.ok (), c') ∧ b.Holds c' ∧ b.left c' ≤ b.left c - 1 ∧
      b.view c' = { b.view c with rest := Parser.synchronize (b.view c).rest } := by
  unfold Cursor.synchronize
  rcases h.mark_or_token with hmark | ⟨t, ht⟩
  · obtain ⟨t, hadvance⟩ := h.exists_advance_mark hmark
    obtain ⟨n, rfl⟩ : ∃ m, n = m + 1 := ⟨n - 1, by omega⟩
    rw [ExceptT.bind_of_ok hadvance, Cursor.skip, ExceptT.bind_of_ok (h.atEnd_mark hmark)]
    refine ⟨c, rfl, h, ?_, ?_⟩
    · simp only [left, hmark]
      omega
    · rw [rest_mark hmark, Parser.synchronize, ← rest_mark hmark]
  · have hstep := left_step ht
    have hlast : b.before[c.place + 1 - 1]? = some t := ht
    obtain ⟨c', hskip, hc', hleft, hview⟩ := (h.step ht).exists_skip (n := n) hlast (by omega)
    rw [ExceptT.bind_of_ok (h.advance_token ht)]
    refine ⟨c', hskip, hc', by omega, ?_⟩
    rw [hview, rest_token ht, Parser.synchronize]
    rfl

namespace Follows

variable {l r : Nat}

/-- A failure takes a token too, once it is skipped. -/
lemma recover {x : Walk Stmt} {p : Parser Stmt} (h : b.Follows l 1 x p) (hn : l < n) :
    b.Follows l 1 (tryCatch (do return some (← x)) (Cursor.recover n)) (Parser.recover p) := by
  intro c hc hleft
  have hagrees := h c hc hleft
  unfold Parser.recover
  generalize hx : x c = result at hagrees
  generalize p (b.view c) = result' at hagrees
  cases hagrees with
  | ok hc' hleft' =>
    rw [Cursor.tryCatch_of_ok (ExceptT.bind_of_ok hx _)]
    exact .ok hc' hleft'
  | @error d c' hc' hleft' =>
    let noted : Cursor := { c' with diagnostics := c'.diagnostics ++ [d] }
    have hnoted : b.Holds noted := ⟨hc'.tokens, hc'.place⟩
    have hnote : Cursor.note d c' = some (.ok (), noted) := rfl
    have hleft_noted : b.left noted = b.left c' := rfl
    obtain ⟨c'', hsynchronize, hc'', hleft'', hview⟩ :=
      hnoted.exists_synchronize (n := n) (by omega)
    rw [Cursor.tryCatch_of_error (ExceptT.bind_of_error hx _), Cursor.recover,
      ExceptT.bind_of_ok hnote, ExceptT.bind_of_ok hsynchronize]
    change b.Agrees c 1 (some (.ok none, c''))
      (.ok none { b.view noted with rest := Parser.synchronize (b.view noted).rest })
    rw [← hview]
    exact .ok hc'' (by omega)

lemma itemOver {statement : Walk Stmt} {statement' : Parser Stmt} {item : Walk (Option Stmt)}
    {item' : Parser (Option Stmt)} (h : ∀ k < l, b.Follows k 1 statement statement')
    (hitem : ∀ k < l, b.Follows k 1 item item') (hn : l < n) (hr : l ≤ r) :
    b.Follows l 1
      (tryCatch (do return some (← Cursor.declarationOver n statement item)) (Cursor.recover n))
      (Parser.itemOver r statement' item') := by
  rw [Parser.itemOver_eq_given]
  refine recover ?_ hn
  exact given (fun _ k _ hk => classDeclaration (hitem k hk) (by omega) (by omega)) <|
    given (fun _ k _ hk => (routine (hitem k hk) (by omega) (by omega) _).lax.andThen fun _ =>
      pure _) <|
    given (fun _ k _ hk => (varDeclaration (by omega) (by omega)).lax) <|
    statementOver h hitem hn hr

lemma statement_item (hn : l < n) (hr : l ≤ r) :
    b.Follows l 1 (Cursor.statement n) (Parser.statement r) ∧
      b.Follows l 1 (Cursor.item n) (Parser.item r) := by
  induction n generalizing l r with
  | zero => omega
  | succ n ih =>
    have hinside : ∀ r, l ≤ r + 1 → ∀ k < l,
        b.Follows k 1 (Cursor.statement n) (Parser.statement r) ∧
          b.Follows k 1 (Cursor.item n) (Parser.item r) :=
      fun r hr k hk => ih (by omega) (by omega)
    have hroom : ∀ r, l ≤ r + 1 →
        b.Follows l 1 (Cursor.statement (n + 1)) (Parser.statement (r + 1)) ∧
          b.Follows l 1 (Cursor.item (n + 1)) (Parser.item (r + 1)) :=
      fun r hr => ⟨
        statementOver (fun k hk => (hinside r hr k hk).1) (fun k hk => (hinside r hr k hk).2) hn hr,
        itemOver (fun k hk => (hinside r hr k hk).1) (fun k hk => (hinside r hr k hk).2) hn hr⟩
    cases r with
    | zero =>
      obtain rfl : l = 0 := by omega
      obtain ⟨hstatement, hitem⟩ := hroom 0 (Nat.zero_le 1)
      exact ⟨hstatement.congr_end fun _ _ _ => rfl, hitem.congr_end fun _ _ _ => rfl⟩
    | succ r => exact hroom r hr

lemma program {room : Nat} (hn : l < n) (hroom : l ≤ room) (hr : l ≤ r) :
    b.Follows l 0 (Cursor.program n)
      (Parser.itemsUntil (fun _ => false) (Parser.item room) r) :=
  (statement_item hn hroom).2.itemsUntil _ hn hr

end Follows
end Marked
end GermanLox
