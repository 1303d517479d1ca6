import GermanLox.Proofs.Reading.Soundness

/-!
# The parser takes every expression

From a stretch of tokens that `Reading` relates to an expression, the parser takes exactly this
stretch and gives this expression, as long as it has the room and the tokens behind cannot go on
with the stretch. One level of the grammar leaves the parser looking for further suffixes or
operators of that level, so each level is stated with what is left to do after it.
-/

namespace GermanLox

/-- Whether a primary form starts with this token. -/
def Token.startsPrimary (t : Token) : Bool :=
  (Literal.ofKind? t.kind).isSome || t.isKeyword .super || t.isKeyword .dies || t.isIdentifier ||
    t.isSymbol .leftParen

/-- Whether an expression starts with this token. -/
def Token.startsExpression (t : Token) : Bool :=
  t.startsPrimary || (UnaryOp.ofKind? t.kind).isSome

/-- Whether this token comes right after an expression: a comma, a semicolon or a closing
parenthesis. -/
def Token.endsExpression (t : Token) : Bool :=
  t.isSymbol .comma || t.isSymbol .semicolon || t.isSymbol .rightParen

namespace Reading

/-- No token behind goes on with operators of the given levels, with a call or with a property. -/
def Stops (ps : List Precedence) (rest : List Token) : Prop :=
  ∀ t, rest.head? = some t →
    t.isSymbol .leftParen = false ∧ t.isSymbol .dot = false ∧ ∀ p ∈ ps, Operator.at? p t = none

lemma Primary.first {k ts e k' ds} (h : Primary k ts e k' ds) :
    ∃ t us, ts = t :: us ∧ t.startsPrimary := by
  cases h with
  | literal h => exact ⟨_, _, rfl, by simp [Token.startsPrimary, h]⟩
  | super h => exact ⟨_, _, rfl, by simp [Token.startsPrimary, h]⟩
  | this h => exact ⟨_, _, rfl, by simp [Token.startsPrimary, h]⟩
  | var h => exact ⟨_, _, rfl, by simp [Token.startsPrimary, h]⟩
  | grouping h => exact ⟨_, _, rfl, by simp [Token.startsPrimary, h]⟩

lemma Call.first {ts e k' ds} : ∀ {k}, Call k ts e k' ds → ∃ t us, ts = t :: us ∧ t.startsPrimary
  | _, .primary h => h.first
  | _, .call h _ _ _ => by
    obtain ⟨t, us, rfl, ht⟩ := h.first
    exact ⟨t, _, rfl, ht⟩
  | _, .get h _ _ => by
    obtain ⟨t, us, rfl, ht⟩ := h.first
    exact ⟨t, _, rfl, ht⟩

lemma Unary.first {k ts e k' ds} (h : Unary k ts e k' ds) :
    ∃ t us, ts = t :: us ∧ t.startsExpression := by
  cases h with
  | call h =>
    obtain ⟨t, us, rfl, ht⟩ := h.first
    exact ⟨t, us, rfl, by simp [Token.startsExpression, ht]⟩
  | sign h => exact ⟨_, _, rfl, by simp [Token.startsExpression, h]⟩

lemma Operation.first {ts e k' ds} :
    ∀ {ps k}, Operation ps k ts e k' ds → ∃ t us, ts = t :: us ∧ t.startsExpression
  | _, _, .unary h => h.first
  | _, _, .operand h => h.first
  | _, _, .apply h _ _ => by
    obtain ⟨t, us, rfl, ht⟩ := h.first
    exact ⟨t, _, rfl, ht⟩

lemma Expression.first {k ts e k' ds} (h : Expression k ts e k' ds) :
    ∃ t us, ts = t :: us ∧ t.startsExpression := by
  cases h with
  | operation h => exact h.first
  | assign h =>
    obtain ⟨t, us, rfl, ht⟩ := h.first
    exact ⟨t, _, rfl, ht⟩
  | set h =>
    obtain ⟨t, us, rfl, ht⟩ := h.first
    exact ⟨t, _, rfl, ht⟩
  | invalid h =>
    obtain ⟨t, us, rfl, ht⟩ := h.first
    exact ⟨t, _, rfl, ht⟩

end Reading

namespace Parser

open Reading

variable {α β : Type}

/-- A parser takes a stretch in front of some tokens for a tree, whatever has been noted. -/
def Takes (p : Parser α) (ts rest : List Token) (k : Nat) (a : α) (k' : Nat)
    (ds : List Diagnostic) : Prop :=
  ∀ line notes, p ⟨ts ++ rest, line, k, notes⟩ = .ok a ⟨rest, line, k', notes ++ ds⟩

lemma expect_of_form {form : Token → Bool} {t : Token} (h : form t) (cause : SyntaxFault)
    (rest : List Token) (line k : Nat) (notes : List Diagnostic) :
    expect form cause ⟨t :: rest, line, k, notes⟩ = .ok t ⟨rest, line, k, notes⟩ := by
  have haccept :
      accept? form ⟨t :: rest, line, k, notes⟩ = .ok (some t) ⟨rest, line, k, notes⟩ := by
    simp only [accept?, h, if_true]
  exact EStateM.bind_of_ok haccept _

lemma accept?_of_form {form : Token → Bool} {t : Token} (h : form t)
    (rest : List Token) (line k : Nat) (notes : List Diagnostic) :
    accept? form ⟨t :: rest, line, k, notes⟩ = .ok (some t) ⟨rest, line, k, notes⟩ := by
  simp only [accept?, h, if_true]

lemma accept?_of_not {form : Token → Bool} {s : State} (h : s.rest.head?.any form = false) :
    accept? form s = .ok none s := by
  obtain ⟨rest, line, k, notes⟩ := s
  cases rest with
  | nil => rfl
  | cons t ts =>
    have ht : form t = false := by simpa using h
    simp [accept?, ht]

lemma literal_takes {t : Token} {value : Literal} (k : Nat) (rest : List Token) :
    Takes (literal value) [t] rest k (.literal k value) (k + 1) [] := by
  intro line notes
  simp only [List.append_nil]
  rfl

/-- All operators of some levels, the loosest first. -/
def towerOf (room : Nat) (inner : Parser Expr) (ps : List Precedence) : Parser Expr :=
  ps.foldr (fun p operand => operation room operand p) (unary room inner)

/-- What is left to do after the first operands of the loosest level. -/
def resume (room : Nat) (inner : Parser Expr) (r : Nat) (e : Expr) : List Precedence → Parser Expr
  | [] => pure e
  | p :: ps => operands p (towerOf room inner ps) r e

lemma peek?_cons (t : Token) (ts : List Token) (line k : Nat) (notes : List Diagnostic) :
    peek? ⟨t :: ts, line, k, notes⟩ = .ok (some t) ⟨t :: ts, line, k, notes⟩ := rfl

lemma resume_of_stops {room : Nat} {inner : Parser Expr} {ps : List Precedence}
    {rest : List Token} (h : Stops ps rest) (r : Nat) (e : Expr) (line k : Nat)
    (notes : List Diagnostic) :
    resume room inner r e ps ⟨rest, line, k, notes⟩ = .ok e ⟨rest, line, k, notes⟩ := by
  cases ps with
  | nil => rfl
  | cons p ps =>
    cases r with
    | zero => rfl
    | succ r =>
      cases rest with
      | nil => rfl
      | cons t rest =>
        have hop := (h t rfl).2.2 p List.mem_cons_self
        rw [resume, operands, EStateM.bind_of_ok (peek?_cons t rest line k notes)]
        simp only [hop]
        rfl

lemma operands_of_operator {p : Precedence} {operand : Parser Expr} {t : Token} {op : Operator}
    (h : Operator.at? p t = some op) {us rest : List Token} {k k' : Nat} {right : Expr}
    {ds : List Diagnostic} (hright : Takes operand us rest k right k' ds) (r : Nat) (left : Expr)
    (line : Nat) (notes : List Diagnostic) :
    operands p operand (r + 1) left ⟨t :: us ++ rest, line, k, notes⟩ =
      operands p operand r (op.apply k' t left right) ⟨rest, line, k' + 1, notes ++ ds⟩ := by
  rw [operands, List.cons_append, EStateM.bind_of_ok (peek?_cons t (us ++ rest) line k notes)]
  simp only [h]
  change (operand >>= fun right => do
    operands p operand r (op.apply (← freshId) t left right)) ⟨us ++ rest, line, k, notes⟩ = _
  rw [EStateM.bind_of_ok (hright line notes)]
  rfl

lemma signs_takes {ops : List (UnaryOp × Token)} (room : Nat) (rest : List Token)
    (hops : ∀ op ∈ ops, UnaryOp.ofKind? op.2.kind = some op.1) (hroom : ops.length ≤ room)
    (hrest : rest.head?.any (fun t => (UnaryOp.ofKind? t.kind).isSome) = false) (k : Nat) :
    Takes (signs room) (ops.map Prod.snd) rest k ops k [] := by
  intro line notes
  rw [List.append_nil]
  induction ops generalizing room with
  | nil =>
    cases room with
    | zero => rfl
    | succ room => exact EStateM.bind_of_ok (accept?_of_not hrest) _
  | cons op ops ih =>
    obtain ⟨op, t⟩ := op
    have hop : UnaryOp.ofKind? t.kind = some op := hops (op, t) List.mem_cons_self
    cases room with
    | zero => simp at hroom
    | succ room =>
      have hinner := ih room (fun op hop => hops op (List.mem_cons_of_mem _ hop))
        (by simpa using hroom)
      have haccept : accept? (fun t => (UnaryOp.ofKind? t.kind).isSome)
          ⟨t :: (ops.map Prod.snd ++ rest), line, k, notes⟩ = .ok (some t) _ :=
        accept?_of_form (by simp [hop]) _ line k notes
      unfold signs
      rw [List.map_cons, List.cons_append, EStateM.bind_of_ok haccept]
      dsimp only
      rw [EStateM.bind_of_ok hinner, hop]
      rfl

lemma primary_takes_literal {t : Token} {value : Literal}
    (h : Literal.ofKind? t.kind = some value) (inner : Parser Expr) (k : Nat)
    (rest : List Token) : Takes (primary inner) [t] rest k (.literal k value) (k + 1) [] := by
  intro line notes
  have hpeek : peek? ⟨[t] ++ rest, line, k, notes⟩ = .ok (some t) ⟨[t] ++ rest, line, k, notes⟩ :=
    rfl
  unfold primary
  rw [EStateM.bind_of_ok hpeek]
  dsimp only
  unfold Literal.ofKind? at h
  split at h <;> rename_i hk <;>
    first
      | cases h; rw [hk]; exact literal_takes k rest line notes
      | cases h

lemma noteOverlong_takes (cause : SyntaxFault) (count : Nat) {ts : List Token} (hts : ts ≠ [])
    (rest : List Token) (line k : Nat) (notes : List Diagnostic) :
    noteOverlong cause count ⟨ts ++ rest, line, k, notes⟩ =
      .ok () ⟨ts ++ rest, line, k, notes ++ overlong cause count ts⟩ := by
  unfold noteOverlong overlong
  split
  · cases ts with
    | nil => exact absurd rfl hts
    | cons t ts => rfl
  · rw [List.append_nil]
    rfl

/-- The last entry of a list. -/
lemma entries_takes_last {entry : Parser α} {tooMany : SyntaxFault} {count k k' : Nat}
    {ts : List Token} {a : α} {ds : List Diagnostic} {rest : List Token} (hts : ts ≠ [])
    (ha : Takes entry ts rest k a k' ds) (hrest : rest.head?.any (·.isSymbol .comma) = false)
    (room : Nat) :
    Takes (entries entry tooMany room count) ts rest k [a] k'
      (overlong tooMany count ts ++ ds) := by
  intro line notes
  rw [entries_eq, EStateM.bind_of_ok (noteOverlong_takes tooMany count hts rest line k notes),
    EStateM.bind_of_ok (ha line _), List.append_assoc]
  cases room with
  | zero => rfl
  | succ room => exact EStateM.bind_of_ok (accept?_of_not hrest) _

/-- An entry with further ones behind it. -/
lemma entries_takes_more {entry : Parser α} {tooMany : SyntaxFault} {count k k₁ k' : Nat}
    {ts us : List Token} {a : α} {as : List α} {comma : Token} {ds ds' : List Diagnostic}
    {rest : List Token} {room : Nat} (hts : ts ≠ [])
    (ha : Takes entry ts (comma :: us ++ rest) k a k₁ ds) (hcomma : comma.isSymbol .comma)
    (has : Takes (entries entry tooMany room (count + 1)) us rest k₁ as k' ds') :
    Takes (entries entry tooMany (room + 1) count) (ts ++ comma :: us) rest k (a :: as) k'
      (overlong tooMany count ts ++ ds ++ ds') := by
  intro line notes
  rw [entries_eq, List.append_assoc ts]
  refine EStateM.bind_eq_of_ok (noteOverlong_takes tooMany count hts _ line k notes) ?_
  refine EStateM.bind_eq_of_ok (ha line _) ?_
  refine EStateM.bind_eq_of_ok (accept?_of_form hcomma _ _ _ _) ?_
  refine EStateM.bind_eq_of_ok (has line _) ?_
  simp only [List.append_assoc]
  rfl

end Parser

namespace Reading

open GermanLox.Parser

lemma Expression.ne_nil {k ts e k' ds} (h : Expression k ts e k' ds) : ts ≠ [] := by
  obtain ⟨t, us, rfl, -⟩ := h.first
  exact List.cons_ne_nil t us

/-- Tokens that begin with one that comes right after an expression. -/
def EndsHere (rest : List Token) : Prop :=
  ∃ t us, rest = t :: us ∧ t.endsExpression

lemma eq_keyword {t : Token} {w : Keyword} (h : t.isKeyword w) :
    t = ⟨.keyword w, t.lexeme, t.line⟩ := by
  obtain ⟨kind, lexeme, line⟩ := t
  simpa [Token.isKeyword] using h

lemma eq_symbol {t : Token} {s : Symbol} (h : t.isSymbol s) :
    t = ⟨.symbol s, t.lexeme, t.line⟩ := by
  obtain ⟨kind, lexeme, line⟩ := t
  simpa [Token.isSymbol] using h

lemma eq_identifier {t : Token} (h : t.isIdentifier) : t = ⟨.identifier, t.lexeme, t.line⟩ := by
  obtain ⟨kind, lexeme, line⟩ := t
  simpa [Token.isIdentifier] using h

lemma endsHere_of_rightParen {closing : Token} (h : closing.isSymbol .rightParen)
    (rest : List Token) : EndsHere (closing :: rest) :=
  ⟨closing, rest, rfl, by simp [Token.endsExpression, h]⟩

lemma endsHere_of_comma {comma : Token} (h : comma.isSymbol .comma) (rest : List Token) :
    EndsHere (comma :: rest) :=
  ⟨comma, rest, rfl, by simp [Token.endsExpression, h]⟩

lemma endsHere_of_semicolon {semicolon : Token} (h : semicolon.isSymbol .semicolon)
    (rest : List Token) : EndsHere (semicolon :: rest) :=
  ⟨semicolon, rest, rfl, by simp [Token.endsExpression, h]⟩

lemma EndsHere.stops {rest : List Token} (h : EndsHere rest) (ps : List Precedence) :
    Stops ps rest := by
  obtain ⟨t, us, rfl, ht⟩ := h
  rintro _ ⟨⟩
  simp only [Token.endsExpression, Bool.or_eq_true, Token.isSymbol, decide_eq_true_eq] at ht
  rcases ht with (hk | hk) | hk <;>
    simp [Token.isSymbol, Operator.at?, Operator.ofKind?, hk]

lemma EndsHere.not_equal {rest : List Token} (h : EndsHere rest) :
    rest.head?.any (·.isSymbol .equal) = false := by
  obtain ⟨t, us, rfl, ht⟩ := h
  simp only [Token.endsExpression, Bool.or_eq_true, Token.isSymbol, decide_eq_true_eq] at ht
  rcases ht with (hk | hk) | hk <;> simp [Token.isSymbol, hk]

lemma stops_of_equal {sign : Token} (h : sign.isSymbol .equal) (ps : List Precedence)
    (rest : List Token) : Stops ps (sign :: rest) := by
  rintro _ ⟨⟩
  have hk : sign.kind = .symbol .equal := by simpa [Token.isSymbol] using h
  simp [Token.isSymbol, Operator.at?, Operator.ofKind?, hk]

/-- An operator of another level stops the tighter ones. -/
lemma stops_of_operator {p : Precedence} {ps : List Precedence} {t : Token} {op : Operator}
    (h : Operator.at? p t = some op) (hp : p ∉ ps) (rest : List Token) :
    Stops ps (t :: rest) := by
  rintro _ ⟨⟩
  obtain ⟨hop, hlevel⟩ : Operator.ofKind? t.kind = some op ∧ op.precedence = p := by
    simpa [Operator.at?, Option.filter_eq_some_iff] using h
  refine ⟨?_, ?_, ?_⟩
  · by_contra hparen
    have hk : t.kind = .symbol .leftParen := by simpa [Token.isSymbol] using hparen
    rw [hk] at hop
    cases hop
  · by_contra hdot
    have hk : t.kind = .symbol .dot := by simpa [Token.isSymbol] using hdot
    rw [hk] at hop
    cases hop
  · intro q hq
    have hne : op.precedence ≠ q := by
      rw [hlevel]
      rintro rfl
      exact hp hq
    simp [Operator.at?, hop, hne]

lemma suffixes_of_stops {ps : List Precedence} {rest : List Token} (h : Stops ps rest)
    (inner : Parser Expr) (r : Nat) (e : Expr) (line k : Nat) (notes : List Diagnostic) :
    suffixes inner r e ⟨rest, line, k, notes⟩ = .ok e ⟨rest, line, k, notes⟩ := by
  cases r with
  | zero => rfl
  | succ r =>
    have hparen : rest.head?.any (·.isSymbol .leftParen) = false := by
      cases rest with
      | nil => rfl
      | cons t rest => simpa using (h t rfl).1
    have hdot : rest.head?.any (·.isSymbol .dot) = false := by
      cases rest with
      | nil => rfl
      | cons t rest => simpa using (h t rfl).2.1
    refine EStateM.bind_eq_of_ok (accept?_of_not hparen) ?_
    exact EStateM.bind_eq_of_ok (accept?_of_not hdot) rfl

lemma startsPrimary_not_sign {t : Token} (h : t.startsPrimary) :
    (UnaryOp.ofKind? t.kind).isSome = false := by
  by_contra hsign
  obtain ⟨kind, lexeme, line⟩ := t
  unfold UnaryOp.ofKind? at hsign
  split at hsign <;> simp_all [Token.startsPrimary, Token.isKeyword, Token.isSymbol,
    Token.isIdentifier, Literal.ofKind?]

lemma isSymbol_ne {t : Token} {s s' : Symbol} (h : t.isSymbol s) (hne : s ≠ s')  :
    t.isSymbol s' = false := by
  rw [eq_symbol h]
  simp [Token.isSymbol, hne]

lemma startsExpression_not_rightParen {t : Token} (h : t.startsExpression) :
    t.isSymbol .rightParen = false := by
  by_contra hparen
  rw [Bool.not_eq_false] at hparen
  rw [eq_symbol hparen] at h
  cases h

lemma Stops.mono {ps qs : List Precedence} {rest : List Token} (h : Stops ps rest)
    (hsub : qs ⊆ ps) : Stops qs rest := by
  intro t ht
  obtain ⟨hparen, hdot, hops⟩ := h t ht
  exact ⟨hparen, hdot, fun p hp => hops p (hsub hp)⟩

lemma tower_nodup : Precedence.tower.Nodup := by
  decide

lemma Entries.first {count k ts es k' ds} (h : Entries count k ts es k' ds) :
    ∃ t us, ts = t :: us ∧ t.startsExpression := by
  cases h with
  | last he => exact he.first
  | more he =>
    obtain ⟨t, us, rfl, ht⟩ := he.first
    exact ⟨t, _, rfl, ht⟩

/-- Signs and a call behind them, put together. -/
lemma unary_takes {k k' room : Nat} {ts rest : List Token} {e : Expr} {ds : List Diagnostic}
    {inner : Parser Expr}
    (h : ∃ ops us e₀ k₁, ts = ops.map Prod.snd ++ us ∧
      (∀ op ∈ ops, UnaryOp.ofKind? op.2.kind = some op.1) ∧
      (∃ t vs, us = t :: vs ∧ t.startsPrimary) ∧
      Takes (call room inner) us rest k e₀ k₁ ds ∧
      ∀ rest line notes, signed ops e₀ ⟨rest, line, k₁, notes⟩ = .ok e ⟨rest, line, k', notes⟩)
    (hroom : (ts ++ rest).length ≤ room) : Takes (unary room inner) ts rest k e k' ds := by
  obtain ⟨ops, us, e₀, k₁, rfl, hops, ⟨t, vs, rfl, ht⟩, hcall, hsigned⟩ := h
  intro line notes
  have hsigns := signs_takes room (t :: vs ++ rest) hops
    (by simp only [List.length_append, List.length_map] at hroom; omega)
    (by simpa using startsPrimary_not_sign ht) k line notes
  rw [List.append_assoc]
  refine EStateM.bind_eq_of_ok hsigns ?_
  rw [List.append_nil]
  exact EStateM.bind_eq_of_ok (hcall line notes) (hsigned rest line _)

/-- With nothing behind that goes on, a tower of operators is done. -/
lemma operations_takes {k k' room : Nat} {ts rest : List Token} {e : Expr}
    {ds : List Diagnostic} {inner : Parser Expr} {ps : List Precedence}
    (h : ∃ r, rest.length ≤ r ∧ ∀ line notes,
      towerOf room inner ps ⟨ts ++ rest, line, k, notes⟩ =
        resume room inner r e ps ⟨rest, line, k', notes ++ ds⟩)
    (hrest : Stops ps rest) : Takes (towerOf room inner ps) ts rest k e k' ds := by
  obtain ⟨r, -, hrun⟩ := h
  exact fun line notes => (hrun line notes).trans (resume_of_stops hrest _ _ _ _ _)

/-- The node that an equals sign makes of a target and a value. -/
def assigned? (id : ExprId) (value : Expr) : Expr → Option Expr
  | .var _ name => some (.assign id name value)
  | .get _ object name => some (.set id object name value)
  | _ => none

lemma assignment_takes {room k k₁ k₂ : Nat} {inner : Parser Expr} {ts us rest : List Token}
    {sign : Token} {target value e : Expr} {ds₁ ds₂ : List Diagnostic}
    (htarget :
      Takes (towerOf room inner Precedence.tower) ts (sign :: (us ++ rest)) k target k₁ ds₁)
    (hsign : sign.isSymbol .equal) (hvalue : Takes inner us rest k₁ value k₂ ds₂)
    (he : assigned? k₂ value target = some e) :
    Takes (assignment room inner) (ts ++ sign :: us) rest k e (k₂ + 1) (ds₁ ++ ds₂) := by
  intro line notes
  rw [List.append_assoc, List.cons_append]
  refine EStateM.bind_eq_of_ok (htarget line notes) ?_
  refine EStateM.bind_eq_of_ok (accept?_of_form hsign _ _ _ _) ?_
  refine EStateM.bind_eq_of_ok (hvalue line _) ?_
  rw [List.append_assoc]
  cases target <;> cases he <;> rfl

lemma invalid_assignment_takes {room k k₁ k₂ : Nat} {inner : Parser Expr} {ts us rest : List Token}
    {sign : Token} {target value : Expr} {ds₁ ds₂ : List Diagnostic}
    (htarget :
      Takes (towerOf room inner Precedence.tower) ts (sign :: (us ++ rest)) k target k₁ ds₁)
    (hbad : target.isTarget = false) (hsign : sign.isSymbol .equal)
    (hvalue : Takes inner us rest k₁ value k₂ ds₂) :
    Takes (assignment room inner) (ts ++ sign :: us) rest k target k₂
      (ds₁ ++ ds₂ ++ [.syntactic sign.line .invalidAssignmentTarget]) := by
  intro line notes
  rw [List.append_assoc, List.cons_append]
  refine EStateM.bind_eq_of_ok (htarget line notes) ?_
  refine EStateM.bind_eq_of_ok (accept?_of_form hsign _ _ _ _) ?_
  refine EStateM.bind_eq_of_ok (hvalue line _) ?_
  simp only [← List.append_assoc]
  cases target <;> first | rfl | cases hbad

mutual

theorem Primary.takes {k ts e k' ds} (h : Primary k ts e k' ds) (room : Nat) (rest : List Token)
    (hroom : (ts ++ rest).length ≤ room + 1) :
    Takes (primary (expression room)) ts rest k e k' ds := by
  intro line notes
  match h with
  | .literal hvalue => exact primary_takes_literal hvalue (expression room) k rest line notes
  | .super ht hdot hmethod =>
    rw [eq_keyword ht, List.append_nil]
    refine EStateM.bind_eq_of_ok rfl ?_
    refine EStateM.bind_eq_of_ok rfl ?_
    refine EStateM.bind_eq_of_ok (expect_of_form hdot _ _ _ _ _) ?_
    exact EStateM.bind_eq_of_ok (expect_of_form hmethod _ _ _ _ _) rfl
  | .this ht =>
    rw [eq_keyword ht, List.append_nil]
    rfl
  | .var ht =>
    rw [eq_identifier ht, List.append_nil]
    rfl
  | @Primary.grouping _ opening us closing e k₁ _ hopening he hclosing =>
    have hinner := he.takes room (closing :: rest) (by simpa using hroom)
      (endsHere_of_rightParen hclosing rest) line notes
    rw [eq_symbol hopening, List.append_assoc, List.cons_append]
    refine EStateM.bind_eq_of_ok rfl ?_
    refine EStateM.bind_eq_of_ok rfl ?_
    refine EStateM.bind_eq_of_ok hinner ?_
    exact EStateM.bind_eq_of_ok (expect_of_form hclosing _ _ _ _ _) rfl

/-- After a stretch with calls and properties the parser is left to look for further ones. -/
theorem Call.takes {k ts e k' ds} (h : Call k ts e k' ds) (room : Nat) (rest : List Token)
    (hroom : (ts ++ rest).length ≤ room + 1) :
    ∃ r, rest.length ≤ r ∧ ∀ line notes,
      call (room + 1) (expression room) ⟨ts ++ rest, line, k, notes⟩ =
        suffixes (expression room) r e ⟨rest, line, k', notes ++ ds⟩ := by
  match h with
  | .primary h =>
    have hprimary := h.takes room rest hroom
    simp only [List.length_append] at hroom
    exact ⟨room + 1, by omega, fun line notes => EStateM.bind_eq_of_ok (hprimary line notes) rfl⟩
  | @Call.call _ ts callee k₁ ds₁ opening us arguments k₂ ds₂ closing hcallee hopening hargs
      hclosing =>
    obtain ⟨r, hr, hrun⟩ := hcallee.takes room (opening :: us ++ closing :: rest)
      (by simpa using hroom)
    obtain ⟨t, vs, rfl, -⟩ := hcallee.first
    obtain ⟨r, rfl⟩ : ∃ r', r = r' + 1 := ⟨r - 1, by simp at hr; omega⟩
    simp only [List.length_append, List.length_cons, List.length_nil] at hr hroom
    have hinner := hargs.takes room r hclosing rest (by simp; omega) (by simp; omega)
    refine ⟨r, by omega, fun line notes => ?_⟩
    have happ : t :: vs ++ opening :: us ++ [closing] ++ rest =
      t :: vs ++ (opening :: us ++ closing :: rest) := by simp
    rw [happ, hrun]
    refine EStateM.bind_eq_of_ok (accept?_of_form hopening _ _ _ _) ?_
    refine EStateM.bind_eq_of_ok (hinner line _) ?_
    refine EStateM.bind_eq_of_ok (expect_of_form hclosing _ _ _ _ _) ?_
    rw [← List.append_assoc]
    rfl
  | @Call.get _ ts object k₁ _ dot name hobject hdot hname =>
    obtain ⟨r, hr, hrun⟩ := hobject.takes room (dot :: name :: rest) (by simpa using hroom)
    obtain ⟨r, rfl⟩ : ∃ r', r = r' + 1 := ⟨r - 1, by simp at hr; omega⟩
    simp only [List.length_cons] at hr
    refine ⟨r, by omega, fun line notes => ?_⟩
    have happ : ts ++ [dot, name] ++ rest = ts ++ dot :: name :: rest := by simp
    have hnot : dot.isSymbol .leftParen = false := by
      rw [eq_symbol hdot]
      rfl
    rw [happ, hrun]
    refine EStateM.bind_eq_of_ok (accept?_of_not (by simpa using hnot)) ?_
    refine EStateM.bind_eq_of_ok (accept?_of_form hdot _ _ _ _) ?_
    exact EStateM.bind_eq_of_ok (expect_of_form hname _ _ _ _ _) rfl

theorem Arguments.takes {k ts es k' ds} (h : Arguments k ts es k' ds) (room r : Nat)
    {closing : Token} (hclosing : closing.isSymbol .rightParen) (rest : List Token)
    (hroom : (ts ++ closing :: rest).length ≤ room) (hr : (ts ++ closing :: rest).length ≤ r) :
    Takes (entriesOrNone (expression room) .tooManyArguments r) ts (closing :: rest)
      k es k' ds := by
  intro line notes
  match h with
  | .none =>
    refine EStateM.bind_eq_of_ok rfl ?_
    simp only [List.nil_append, List.head?_cons, Option.any_some, hclosing, List.append_nil]
    rfl
  | .some h =>
    have hentries := h.takes room r hclosing rest hroom hr line notes
    obtain ⟨t, us, rfl, ht⟩ := h.first
    refine EStateM.bind_eq_of_ok rfl ?_
    simp only [List.cons_append, List.head?_cons, Option.any_some,
      startsExpression_not_rightParen ht]
    exact hentries

theorem Entries.takes {count k ts es k' ds} (h : Entries count k ts es k' ds) (room r : Nat)
    {closing : Token} (hclosing : closing.isSymbol .rightParen) (rest : List Token)
    (hroom : (ts ++ closing :: rest).length ≤ room) (hr : (ts ++ closing :: rest).length ≤ r) :
    Takes (entries (expression room) .tooManyArguments r count) ts (closing :: rest)
      k es k' ds := by
  match h with
  | .last he =>
    have hlast := he.takes room _ hroom (endsHere_of_rightParen hclosing rest)
    exact entries_takes_last he.ne_nil hlast (isSymbol_ne hclosing nofun) r
  | @Entries.more _ _ ts e k₁ ds comma us es _ ds' he hcomma hes =>
    simp only [List.length_append, List.length_cons] at hroom hr
    obtain ⟨r, rfl⟩ : ∃ r', r = r' + 1 := ⟨r - 1, by omega⟩
    have hfirst := he.takes room (comma :: us ++ closing :: rest) (by simp; omega)
      (endsHere_of_comma hcomma _)
    have hmore := hes.takes room r hclosing rest (by simp; omega) (by simp; omega)
    exact entries_takes_more he.ne_nil hfirst hcomma hmore

/-- Signs come before a call; they are applied from the last one on. -/
theorem Unary.takes {k ts e k' ds} (h : Unary k ts e k' ds) (room : Nat) (rest : List Token)
    (hroom : (ts ++ rest).length ≤ room + 1) (hrest : Stops [] rest) :
    ∃ ops us e₀ k₁, ts = ops.map Prod.snd ++ us ∧
      (∀ op ∈ ops, UnaryOp.ofKind? op.2.kind = some op.1) ∧
      (∃ t vs, us = t :: vs ∧ t.startsPrimary) ∧
      Takes (call (room + 1) (expression room)) us rest k e₀ k₁ ds ∧
      ∀ rest line notes, signed ops e₀ ⟨rest, line, k₁, notes⟩ = .ok e ⟨rest, line, k', notes⟩ := by
  match h with
  | .call h =>
    obtain ⟨r, -, hrun⟩ := h.takes room rest hroom
    refine ⟨[], ts, e, k', rfl, by simp, h.first, fun line notes => ?_, fun _ _ _ => rfl⟩
    rw [hrun, suffixes_of_stops hrest]
  | @Unary.sign _ t op ts e k₂ _ hop he =>
    simp only [List.cons_append, List.length_cons] at hroom
    obtain ⟨ops, us, e₀, k₁, rfl, hops, hus, hcall, hsigned⟩ :=
      he.takes room rest (by omega) hrest
    refine ⟨(op, t) :: ops, us, e₀, k₁, rfl, ?_, hus, hcall, fun rest line notes => ?_⟩
    · rintro p (_ | ⟨_, hp⟩)
      · exact hop
      · exact hops p hp
    · exact EStateM.bind_eq_of_ok (hsigned rest line notes) rfl

/-- After a stretch with operators the parser is left to look for further ones of the loosest
level. -/
theorem Operation.takes {ps k ts e k' ds} (h : Operation ps k ts e k' ds) (hps : ps.Nodup)
    (room : Nat) (rest : List Token) (hroom : (ts ++ rest).length ≤ room + 1)
    (hrest : Stops ps.tail rest) :
    ∃ r, rest.length ≤ r ∧ ∀ line notes,
      towerOf (room + 1) (expression room) ps ⟨ts ++ rest, line, k, notes⟩ =
        resume (room + 1) (expression room) r e ps ⟨rest, line, k', notes ++ ds⟩ := by
  match h with
  | .unary h =>
    have hunary := unary_takes (h.takes room rest hroom hrest) hroom
    exact ⟨rest.length, Nat.le_refl _, hunary⟩
  | @Operation.operand p ps _ _ _ _ _ h =>
    obtain ⟨r, hr, hrun⟩ := h.takes (List.nodup_cons.mp hps).2 room rest hroom
      (hrest.mono ps.tail_sublist.subset)
    refine ⟨room + 1, by simp only [List.length_append] at hroom; omega, fun line notes => ?_⟩
    exact EStateM.bind_eq_of_ok ((hrun line notes).trans (resume_of_stops hrest _ _ _ _ _)) rfl
  | @Operation.apply p ps _ ts left k₁ ds₁ t op us right k₂ ds₂ hleft hop hright =>
    obtain ⟨hp, hnodup⟩ := List.nodup_cons.mp hps
    obtain ⟨r, hr, hrun⟩ := hleft.takes hps room (t :: us ++ rest) (by simpa using hroom)
      (stops_of_operator hop hp _)
    simp only [List.length_append, List.length_cons] at hroom hr
    obtain ⟨r, rfl⟩ : ∃ r', r = r' + 1 := ⟨r - 1, by omega⟩
    obtain ⟨r', -, hrun'⟩ := hright.takes hnodup room rest (by simp; omega)
      (hrest.mono ps.tail_sublist.subset)
    have htakes : Takes (towerOf (room + 1) (expression room) ps) us rest k₁ right k₂ ds₂ :=
      fun line notes => (hrun' line notes).trans (resume_of_stops hrest _ _ _ _ _)
    refine ⟨r, by omega, fun line notes => ?_⟩
    rw [List.append_assoc, hrun, resume, operands_of_operator hop htakes, List.append_assoc, resume]

theorem Expression.takes {k ts e k' ds} (h : Expression k ts e k' ds) (room : Nat)
    (rest : List Token) (hroom : (ts ++ rest).length ≤ room) (hrest : EndsHere rest) :
    Takes (expression room) ts rest k e k' ds := by
  obtain ⟨room, rfl⟩ : ∃ room', room = room' + 1 := by
    obtain ⟨t, us, rfl, -⟩ := h.first
    exact ⟨room - 1, by simp at hroom; omega⟩
  match h with
  | .operation h =>
    have hoperations := operations_takes (h.takes tower_nodup room rest hroom (hrest.stops _))
      (hrest.stops _)
    intro line notes
    refine EStateM.bind_eq_of_ok (hoperations line notes) ?_
    exact EStateM.bind_eq_of_ok (accept?_of_not hrest.not_equal) rfl
  | @Expression.assign _ ts i name k₁ ds₁ sign us value k₂ ds₂ htarget hsign hvalue =>
    simp only [List.append_assoc, List.cons_append] at hroom
    have hoperations := operations_takes
      (htarget.takes tower_nodup room (sign :: (us ++ rest)) hroom (stops_of_equal hsign _ _))
      (stops_of_equal hsign _ _)
    have hinner := hvalue.takes room rest (by simp at hroom ⊢; omega) hrest
    exact assignment_takes hoperations hsign hinner rfl
  | @Expression.set _ ts i object name k₁ ds₁ sign us value k₂ ds₂ htarget hsign hvalue =>
    simp only [List.append_assoc, List.cons_append] at hroom
    have hoperations := operations_takes
      (htarget.takes tower_nodup room (sign :: (us ++ rest)) hroom (stops_of_equal hsign _ _))
      (stops_of_equal hsign _ _)
    have hinner := hvalue.takes room rest (by simp at hroom ⊢; omega) hrest
    exact assignment_takes hoperations hsign hinner rfl
  | @Expression.invalid _ ts target k₁ ds₁ sign us value k₂ ds₂ htarget hbad hsign hvalue =>
    simp only [List.append_assoc, List.cons_append] at hroom
    have hoperations := operations_takes
      (htarget.takes tower_nodup room (sign :: (us ++ rest)) hroom (stops_of_equal hsign _ _))
      (stops_of_equal hsign _ _)
    have hinner := hvalue.takes room rest (by simp at hroom ⊢; omega) hrest
    exact invalid_assignment_takes hoperations hbad hsign hinner

end

end Reading
end GermanLox
