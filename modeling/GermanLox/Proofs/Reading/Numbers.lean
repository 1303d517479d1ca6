import GermanLox.Proofs.Reading.Soundness

/-!
# Numbers are never given back, and never outnumber the tokens

However a parser ends, the next free expression number is not lower than before. So a source that
is wrong uses up numbers, but no later source gets one of an earlier source. And a number is given
only for a token that has been read, each for its own: numbers are as many as tokens at most.
-/

namespace GermanLox
namespace Parser

variable {α β : Type}

/-- The state that a parser leaves, however it ends. -/
def stateAfter : EStateM.Result Diagnostic State α → State
  | .ok _ s => s
  | .error _ s => s

/-- What is left of the tokens that were held. After a failure they are of no use. -/
def leftAfter (left : α → Nat) : EStateM.Result Diagnostic State α → Nat
  | .ok a _ => left a
  | .error _ _ => 0

/-- From a state, a parser gives back no number, and gives a new one only for a token. It may hold
tokens that were read before it and have no number yet, and leave such tokens for what follows. -/
structure Climbs (held : Nat) (p : Parser α) (left : α → Nat) (s : State) : Prop where
  le : s.nextId ≤ (stateAfter (p s)).nextId
  bound : (stateAfter (p s)).nextId + (stateAfter (p s)).rest.length + leftAfter left (p s) ≤
    s.nextId + s.rest.length + held

namespace Climbs

variable {held : Nat} {left : α → Nat} {p : Parser α} {s : State}

lemma of_ok {a : α} {s' : State} (h : p s = .ok a s') (hle : s.nextId ≤ s'.nextId)
    (hbound : s'.nextId + s'.rest.length + left a ≤ s.nextId + s.rest.length + held) :
    Climbs held p left s := by
  refine ⟨?_, ?_⟩
  · rwa [h]
  · rwa [h]

lemma mono {left' : α → Nat} (h : Climbs held p left s) (hle : ∀ a, left' a ≤ left a) :
    Climbs held p left' s := by
  obtain ⟨hnext, hbound⟩ := h
  refine ⟨hnext, Nat.le_trans (Nat.add_le_add_left ?_ _) hbound⟩
  cases p s with
  | ok a s' => exact hle a
  | error d s' => exact Nat.le_refl 0

lemma pure {a : α} (h : left a ≤ held) : Climbs held (Pure.pure a : Parser α) left s :=
  of_ok rfl (Nat.le_refl _) (Nat.add_le_add_left h _)

lemma bind {f : α → Parser β} {left' : β → Nat} (hp : Climbs held p left s)
    (hf : ∀ a s', p s = .ok a s' → Climbs (left a) (f a) left' s') :
    Climbs held (p >>= f) left' s := by
  obtain ⟨hle, hbound⟩ := hp
  cases hps : p s with
  | ok a s₁ =>
    obtain ⟨hle', hbound'⟩ := hf a s₁ hps
    rw [hps] at hle hbound
    rw [← EStateM.bind_of_ok hps f] at hle' hbound'
    exact ⟨Nat.le_trans hle hle', Nat.le_trans hbound' hbound⟩
  | error d s₁ =>
    rw [hps] at hle hbound
    have hbind := EStateM.bind_of_error hps f
    refine ⟨?_, ?_⟩
    · rwa [hbind]
    · rwa [hbind]

lemma map {n : Nat} (hp : Climbs held p (fun _ => n) s) (f : α → β) :
    Climbs held (f <$> p) (fun _ => n) s := by
  rw [map_eq_pure_bind]
  exact hp.bind fun _ _ _ => .pure (Nat.le_refl _)

lemma freshId {n : Nat} (h : n < held) : Climbs held Parser.freshId (fun _ => n) s := by
  refine of_ok rfl (Nat.le_succ _) ?_
  dsimp only
  omega

/-- A node that takes the next number. -/
lemma node {n : Nat} (make : ExprId → α) (h : n < held) :
    Climbs held (do return make (← Parser.freshId)) (fun _ => n) s :=
  (freshId h).bind fun _ _ _ => .pure (Nat.le_refl _)

lemma advance (h : s.rest ≠ []) : Climbs held Parser.advance (fun _ => held + 1) s := by
  refine of_ok rfl (Nat.le_refl _) ?_
  have hpos := List.length_pos_iff.mpr h
  dsimp only
  rw [List.length_tail]
  omega

lemma accept? (form : Token → Bool) :
    Climbs held (Parser.accept? form) (fun r => held + r.toList.length) s := by
  cases hrest : s.rest with
  | nil =>
    have hnone : Parser.accept? form s = .ok none s := by simp only [Parser.accept?, hrest]
    exact of_ok hnone (Nat.le_refl _) (Nat.le_refl _)
  | cons t ts =>
    cases ht : form t with
    | false =>
      have hnone : Parser.accept? form s = .ok none s := by
        simp only [Parser.accept?, hrest, ht, Bool.false_eq_true, if_false]
      exact of_ok hnone (Nat.le_refl _) (Nat.le_refl _)
    | true =>
      have hsome : Parser.accept? form s = .ok (some t) { s with rest := ts } := by
        simp only [Parser.accept?, hrest, ht, if_true]
      refine of_ok hsome (Nat.le_refl _) ?_
      rw [hrest]
      exact Nat.le_of_eq (by rw [List.length_cons]; ac_rfl)

lemma fail (cause : SyntaxFault) : Climbs held (Parser.fail cause : Parser α) left s :=
  ⟨Nat.le_refl _, Nat.le_add_right _ _⟩

lemma expect (form : Token → Bool) (cause : SyntaxFault) :
    Climbs held (Parser.expect form cause) (fun _ => held + 1) s := by
  refine (accept? form).bind fun r _ _ => ?_
  cases r with
  | some t => exact .pure (Nat.le_refl _)
  | none => exact .fail cause

end Climbs

lemma length_statementBoundary_le (t : Token) (ts : List Token) :
    (statementBoundary t ts).length ≤ ts.length := by
  induction ts generalizing t with
  | nil => exact Nat.le_refl 0
  | cons t' ts ih =>
    unfold statementBoundary
    split
    · exact Nat.le_refl _
    · exact Nat.le_succ_of_le (ih t')

lemma length_synchronize_le (ts : List Token) : (synchronize ts).length ≤ ts.length := by
  cases ts with
  | nil => exact Nat.le_refl 0
  | cons t ts => exact Nat.le_succ_of_le (length_statementBoundary_le t ts)

/-- A parser that gives a number only for tokens of its own. -/
def Steady (p : Parser α) : Prop :=
  ∀ held s, Climbs held p (fun _ => held) s

namespace Steady

lemma pure (a : α) : Steady (Pure.pure a : Parser α) :=
  fun _ _ => .pure (Nat.le_refl _)

lemma bind {p : Parser α} {f : α → Parser β} (hp : Steady p) (hf : ∀ a, Steady (f a)) :
    Steady (p >>= f) :=
  fun held s => (hp held s).bind fun a s' _ => hf a held s'

lemma map {p : Parser α} (hp : Steady p) (f : α → β) : Steady (f <$> p) :=
  fun held s => (hp held s).map f

lemma peek? : Steady Parser.peek? :=
  fun _ _ => .of_ok rfl (Nat.le_refl _) (Nat.le_refl _)

lemma advance : Steady Parser.advance := by
  refine fun held s => .of_ok rfl (Nat.le_refl _) ?_
  dsimp only
  rw [List.length_tail]
  omega

lemma nextIs (form : Token → Bool) : Steady (Parser.nextIs form) :=
  fun _ _ => .of_ok rfl (Nat.le_refl _) (Nat.le_refl _)

lemma accept? (form : Token → Bool) : Steady (Parser.accept? form) :=
  fun _ _ => (Climbs.accept? form).mono fun _ => Nat.le_add_right _ _

lemma fail (cause : SyntaxFault) : Steady (Parser.fail cause : Parser α) :=
  fun _ _ => .fail cause

lemma note (line : Nat) (cause : SyntaxFault) : Steady (Parser.note line cause) :=
  fun _ _ => .of_ok rfl (Nat.le_refl _) (Nat.le_refl _)

lemma noteHere (cause : SyntaxFault) : Steady (Parser.noteHere cause) :=
  fun _ _ => .of_ok rfl (Nat.le_refl _) (Nat.le_refl _)

lemma expect (form : Token → Bool) (cause : SyntaxFault) : Steady (Parser.expect form cause) :=
  fun _ _ => (Climbs.expect form cause).mono fun _ => Nat.le_add_right _ _

lemma recover {p : Parser α} (hp : Steady p) : Steady (Parser.recover p) := by
  intro held s
  cases hps : p s with
  | ok a s₁ =>
    obtain ⟨hle, hbound⟩ := hp held s
    have hok : Parser.recover p s = .ok (some a) s₁ := by simp only [Parser.recover, hps]
    rw [hps] at hle hbound
    exact .of_ok hok hle hbound
  | error d s₁ =>
    -- What was held before it is not lost with the failure.
    obtain ⟨hle, hbound⟩ := hp 0 s
    have hok : Parser.recover p s = .ok none
        { s₁ with rest := synchronize s₁.rest, diagnostics := s₁.diagnostics ++ [d] } := by
      simp only [Parser.recover, hps]
    have hlength := length_synchronize_le s₁.rest
    rw [hps] at hle hbound
    refine .of_ok hok hle (Nat.add_le_add_right (Nat.le_trans ?_ hbound) held)
    exact Nat.add_le_add_left hlength _

lemma entries {entry : Parser α} (h : Steady entry) (tooMany : SyntaxFault) (room count : Nat) :
    Steady (Parser.entries entry tooMany room count) := by
  have hnote : ∀ count, Steady (noteOverlong tooMany count) := by
    intro count
    unfold noteOverlong
    split
    · exact noteHere _
    · exact .pure _
  induction room generalizing count with
  | zero =>
    rw [entries_eq]
    exact (hnote count).bind fun _ => h.bind fun _ => .pure _
  | succ room ih =>
    rw [entries_eq]
    refine (hnote count).bind fun _ => h.bind fun first => (accept? _).bind fun r => ?_
    cases r with
    | none => exact .pure _
    | some t => exact (ih _).bind fun _ => .pure _

lemma entriesOrNone {entry : Parser α} (h : Steady entry) (tooMany : SyntaxFault) (room : Nat) :
    Steady (Parser.entriesOrNone entry tooMany room) := by
  refine (nextIs _).bind fun b => ?_
  cases b with
  | true => exact .pure _
  | false => exact h.entries tooMany room 0

lemma itemsUntil {item : Parser (Option α)} (h : Steady item) (stop : Token → Bool) (room : Nat) :
    Steady (Parser.itemsUntil stop item room) := by
  induction room with
  | zero => exact .pure _
  | succ room ih =>
    refine peek?.bind fun r => ?_
    cases r with
    | none => exact .pure _
    | some t =>
      dsimp only
      split
      · exact .pure _
      · exact h.bind fun _ => ih.bind fun _ => .pure _

/-- The token that was seen pays for the node that is made of it. -/
lemma peeked {f : Option Token → Parser α} (hnone : Steady (f none))
    (hsome : ∀ t held s, s.rest ≠ [] → Climbs held (f (some t)) (fun _ => held) s) :
    Steady (Parser.peek? >>= f) := by
  intro held s
  refine (peek? held s).bind fun r s' h => ?_
  cases h
  cases hrest : s.rest with
  | nil => exact hnone held s
  | cons t ts =>
    have hne : s.rest ≠ [] := by rw [hrest]; exact List.cons_ne_nil t ts
    exact hsome t held s hne

/-- A node that is made of the next token. -/
lemma leaf {s : State} {held : Nat} (make : ExprId → Expr) (h : s.rest ≠ []) :
    Climbs held (do Parser.advance; return make (← Parser.freshId)) (fun _ => held) s :=
  (Climbs.advance h).bind fun _ _ _ => .node make (Nat.lt_succ_self _)

lemma primary {inner : Parser Expr} (h : Steady inner) : Steady (Parser.primary inner) := by
  refine peeked (fail _) fun t held s hne => ?_
  dsimp only
  split
  · exact leaf _ hne
  · exact leaf _ hne
  · exact leaf _ hne
  · exact leaf _ hne
  · exact leaf _ hne
  · exact (Climbs.advance hne).bind fun _ s₁ _ => (expect _ _ _ s₁).bind fun _ s₂ _ =>
      (expect _ _ _ s₂).bind fun _ _ _ => .node _ (Nat.lt_succ_self _)
  · exact leaf _ hne
  · exact leaf _ hne
  · exact (Climbs.advance hne).bind fun _ s₁ _ => (h _ s₁).bind fun _ s₂ _ =>
      (expect _ _ _ s₂).bind fun _ _ _ => .node _ (Nat.lt_succ_self _)
  · exact fail _ held s

lemma suffixes {inner : Parser Expr} (h : Steady inner) (room : Nat) (e : Expr) :
    Steady (Parser.suffixes inner room e) := by
  induction room generalizing e with
  | zero => exact .pure _
  | succ room ih =>
    refine fun held s => (Climbs.accept? _).bind fun r s₁ _ => ?_
    cases r with
    | some t =>
      exact (h.entriesOrNone _ room _ s₁).bind fun _ s₂ _ => (expect _ _ _ s₂).bind fun _ s₃ _ =>
        (Climbs.freshId (Nat.lt_succ_self _)).bind fun _ s₄ _ => ih _ held s₄
    | none =>
      refine (Climbs.accept? _).bind fun r s₂ _ => ?_
      cases r with
      | some t =>
        exact (expect _ _ _ s₂).bind fun _ s₃ _ =>
          (Climbs.freshId (Nat.lt_succ_self _)).bind fun _ s₄ _ => ih _ held s₄
      | none => exact .pure (Nat.le_refl _)

lemma length_signs {s : State} {held : Nat} (room : Nat) :
    Climbs held (Parser.signs room) (fun ops => held + ops.length) s := by
  induction room generalizing held s with
  | zero => exact .pure (Nat.le_refl _)
  | succ room ih =>
    refine (Climbs.accept? _).bind fun r _ _ => ?_
    cases r with
    | none => exact .pure (Nat.le_refl _)
    | some t =>
      refine ih.bind fun ops _ _ => .pure ?_
      have hsign : ((UnaryOp.ofKind? t.kind).toList.map (·, t)).length ≤ 1 := by
        cases UnaryOp.ofKind? t.kind with
        | none => exact Nat.zero_le 1
        | some op => exact Nat.le_refl 1
      rw [List.length_append, Nat.add_assoc]
      exact Nat.add_le_add_left (Nat.add_le_add_right hsign _) held

lemma signed {s : State} {held : Nat} (ops : List (UnaryOp × Token)) (e : Expr) :
    Climbs (held + ops.length) (Parser.signed ops e) (fun _ => held) s := by
  induction ops generalizing held s with
  | nil => exact .pure (Nat.le_refl _)
  | cons op ops ih =>
    rw [List.length_cons, ← Nat.add_assoc, Nat.add_right_comm]
    exact ih.bind fun _ _ _ => .node _ (Nat.lt_succ_self _)

lemma unary {inner : Parser Expr} (h : Steady inner) (room : Nat) :
    Steady (Parser.unary room inner) :=
  fun _ _ => (length_signs room).bind fun ops s₁ _ =>
    ((h.primary.bind fun e => h.suffixes room e) _ s₁).bind fun e _ _ => signed ops e

lemma operation {operand : Parser Expr} (h : Steady operand) (room : Nat) (level : Precedence) :
    Steady (Parser.operation room operand level) := by
  refine h.bind fun left => ?_
  induction room generalizing left with
  | zero => exact .pure _
  | succ room ih =>
    refine peeked (.pure _) fun t held s hne => ?_
    dsimp only
    split
    · exact .pure (Nat.le_refl _)
    · exact (Climbs.advance hne).bind fun _ s₁ _ => (h _ s₁).bind fun _ s₂ _ =>
        (Climbs.freshId (Nat.lt_succ_self _)).bind fun _ s₃ _ => ih _ held s₃

lemma assignment {inner : Parser Expr} (h : Steady inner) (room : Nat) :
    Steady (Parser.assignment room inner) := by
  have hoperations : Steady (Parser.operations room inner) :=
    (((((h.unary room).operation room _).operation room _).operation room _).operation room
      _).operation room _ |>.operation room _
  refine hoperations.bind fun target held s => (Climbs.accept? _).bind fun r s₁ _ => ?_
  cases r with
  | none => exact .pure (Nat.le_refl _)
  | some sign =>
    refine (h _ s₁).bind fun value s₂ _ => ?_
    split
    · exact .node _ (Nat.lt_succ_self _)
    · exact .node _ (Nat.lt_succ_self _)
    · exact (note _ _ _ s₂).bind fun _ _ _ => .pure (Nat.le_succ _)

lemma expression (room : Nat) : Steady (Parser.expression room) := by
  induction room with
  | zero => exact fail _
  | succ room ih => exact ih.assignment (room + 1)

lemma terminated (room : Nat) (cause : SyntaxFault) : Steady (Parser.terminated room cause) :=
  (expression room).bind fun _ => (expect _ _).bind fun _ => .pure _

lemma expressionUnless (room : Nat) (stop : Symbol) :
    Steady (Parser.expressionUnless room stop) := by
  refine (nextIs _).bind fun b => ?_
  cases b with
  | true => exact .pure _
  | false => exact (expression room).bind fun _ => .pure _

lemma expressionStatement (room : Nat) : Steady (Parser.expressionStatement room) :=
  (terminated room _).bind fun _ => .pure _

lemma varDeclaration (room : Nat) : Steady (Parser.varDeclaration room) := by
  refine (expect _ _).bind fun name => (accept? _).bind fun r => ?_
  cases r with
  | some t => exact ((expression room).map _).bind fun _ => (expect _ _).bind fun _ => .pure _
  | none => exact (pure _).bind fun _ => (expect _ _).bind fun _ => .pure _

lemma block {item : Parser (Option Stmt)} (h : Steady item) (room : Nat) :
    Steady (Parser.block room item) :=
  (h.itemsUntil _ room).bind fun _ => (expect _ _).bind fun _ => .pure _

lemma routine {item : Parser (Option Stmt)} (h : Steady item) (room : Nat) (kind : Routine) :
    Steady (Parser.routine room kind item) :=
  (expect _ _).bind fun _ => (expect _ _).bind fun _ =>
    ((expect _ _).entriesOrNone _ room).bind fun _ => (expect _ _).bind fun _ =>
    (expect _ _).bind fun _ => (h.block room).bind fun _ => .pure _

lemma superclass : Steady Parser.superclass := by
  refine fun held s => (Climbs.accept? _).bind fun r s₁ _ => ?_
  cases r with
  | none => exact .pure (Nat.le_refl _)
  | some t =>
    exact (expect _ _ _ s₁).bind fun _ _ _ => .node _ (Nat.lt_succ_self _)

lemma classDeclaration {item : Parser (Option Stmt)} (h : Steady item) (room : Nat) :
    Steady (Parser.classDeclaration room item) :=
  (expect _ _).bind fun _ => superclass.bind fun _ => (expect _ _).bind fun _ =>
    (((h.routine room .method).map some).itemsUntil _ room).bind fun _ =>
    (expect _ _).bind fun _ => .pure _

lemma forInitializer (room : Nat) : Steady (Parser.forInitializer room) := by
  refine (accept? _).bind fun r => ?_
  cases r with
  | some t => exact .pure _
  | none =>
    refine (accept? _).bind fun r => ?_
    cases r with
    | some t => exact (varDeclaration room).map _
    | none => exact (expressionStatement room).map _

/-- The sign behind an empty condition pays for it. -/
lemma forStatement {statement : Parser Stmt} (h : Steady statement) (room : Nat) :
    Steady (Parser.forStatement room statement) := by
  refine (expect _ _).bind fun _ => (forInitializer room).bind fun initializer =>
    (expressionUnless room _).bind fun condition held s => ?_
  refine (Climbs.expect _ _).bind fun _ s₁ _ => (expressionUnless room _ _ s₁).bind
    fun increment s₂ _ => (expect _ _ _ s₂).bind fun _ s₃ _ => (h _ s₃).bind fun body s₄ _ => ?_
  cases condition with
  | none =>
    refine ((Climbs.freshId (Nat.lt_succ_self held)).map _).bind fun condition s₅ _ => ?_
    cases initializer with
    | none => exact .pure (Nat.le_refl _)
    | some first => exact .pure (Nat.le_refl _)
  | some e =>
    have hgiven : Climbs (held + 1) (Pure.pure e : Parser Expr) (fun _ => held) s₄ :=
      .pure (Nat.le_succ held)
    refine hgiven.bind fun condition s₅ _ => ?_
    cases initializer with
    | none => exact .pure (Nat.le_refl _)
    | some first => exact .pure (Nat.le_refl _)

lemma statementOver {statement : Parser Stmt} {item : Parser (Option Stmt)} (h : Steady statement)
    (hitem : Steady item) (room : Nat) : Steady (Parser.statementOver room statement item) := by
  have hbranch : Steady (Parser.ifStatement room statement) := by
    refine (expect _ _).bind fun _ => (expression room).bind fun _ => (expect _ _).bind fun _ =>
      h.bind fun _ => (accept? _).bind fun r => ?_
    cases r with
    | none => exact .pure _
    | some t => exact h.bind fun _ => .pure _
  refine peek?.bind fun r => ?_
  cases r with
  | none => exact expressionStatement room
  | some t =>
    dsimp only
    split
    · exact advance.bind fun _ => h.forStatement room
    · exact advance.bind fun _ => hbranch
    · exact advance.bind fun _ => (expect _ _).bind fun _ => (expression room).bind fun _ =>
        (expect _ _).bind fun _ => h.bind fun _ => .pure _
    · exact advance.bind fun _ => (expressionUnless room _).bind fun _ => (expect _ _).bind fun _ =>
        .pure _
    · exact advance.bind fun _ => (terminated room _).bind fun _ => .pure _
    · exact advance.bind fun _ => (hitem.block room).bind fun _ => .pure _
    · exact expressionStatement room

lemma itemOver {statement : Parser Stmt} {item : Parser (Option Stmt)} (h : Steady statement)
    (hitem : Steady item) (room : Nat) : Steady (Parser.itemOver room statement item) := by
  refine (peek?.bind fun r => ?_).recover
  cases r with
  | none => exact h.statementOver hitem room
  | some t =>
    dsimp only
    split
    · exact advance.bind fun _ => hitem.classDeclaration room
    · exact advance.bind fun _ => (hitem.routine room _).bind fun _ => .pure _
    · exact advance.bind fun _ => varDeclaration room
    · exact h.statementOver hitem room

lemma statement_item (room : Nat) :
    Steady (Parser.statement room) ∧ Steady (Parser.item room) := by
  induction room with
  | zero => exact ⟨fail _, (fail _).recover⟩
  | succ room ih => exact ⟨ih.1.statementOver ih.2 _, ih.1.itemOver ih.2 _⟩

end Steady

/-- Reading a list of tokens. -/
lemma climbs_program (tokens : List Token) (k : ExprId) :
    Climbs 0 (program tokens.length) (fun _ => 0) (State.start tokens k) :=
  (Steady.statement_item tokens.length).2.itemsUntil (fun _ => false) tokens.length 0 _

end Parser

lemma nextId_parse (tokens : List Token) (k : ExprId) : (parse tokens k).nextId =
    (Parser.stateAfter (Parser.program tokens.length (Parser.State.start tokens k))).nextId := by
  unfold parse
  cases Parser.program tokens.length (Parser.State.start tokens k) with
  | ok program s => rfl
  | error d s => rfl

/-- No number that was given before is given again. -/
lemma le_nextId_parse (tokens : List Token) (k : ExprId) : k ≤ (parse tokens k).nextId := by
  rw [nextId_parse]
  exact (Parser.climbs_program tokens k).le

/-- Numbers do not run out while there is one for each token. -/
theorem nextId_parse_le (tokens : List Token) (k : ExprId) :
    (parse tokens k).nextId ≤ k + tokens.length := by
  have hbound := (Parser.climbs_program tokens k).bound
  have hlength : (tokens.takeWhile fun t => t.kind ≠ .eof).length ≤ tokens.length :=
    (List.takeWhile_prefix _).length_le
  rw [nextId_parse]
  refine Nat.le_trans (Nat.le_trans ?_ hbound) (Nat.add_le_add_left hlength k)
  rw [Nat.add_assoc]
  exact Nat.le_add_right _ _

end GermanLox
