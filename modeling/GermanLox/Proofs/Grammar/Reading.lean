import GermanLox.Proofs.Grammar.Tree

/-!
# Reading the trees of the grammar

What is read without a note is a tree of the grammar, and every tree of the grammar is read from any
number on, up to its own numbers.
-/

namespace GermanLox

lemma Operator.not_isTarget_apply (op : Operator) (i : ExprId) (t : Token) (left right : Expr) :
    (op.apply i t left right).isTarget = false := by
  cases op <;> rfl

namespace Tree

lemma Sign.not_isTarget {p t node} (h : Sign p t node) (i : ExprId) (left right : Expr) :
    (node i left right).isTarget = false := by
  cases h <;> rfl

lemma Sign.unnumbered_node {p t node} (h : Sign p t node) (i : ExprId) (left right : Expr) :
    (node i left right).unnumbered = node 0 left.unnumbered right.unnumbered := by
  cases h <;> rfl

/-- What an equals sign can follow is a call: no operator makes a name or a property. -/
lemma Operation.call_of_isTarget {ps ts e} (h : Operation ps ts e) (he : e.isTarget) :
    Call ts e := by
  match h with
  | .unary (.call h) => exact h
  | .operand h => exact h.call_of_isTarget he
  | @Operation.sign _ _ _ _ _ _ _ _ _ _ hsign _ =>
    rw [hsign.not_isTarget] at he
    cases he

lemma Call.eq_of_var {ts i name} (h : Call ts (.var i name)) : ts = [name] ∧ name.isIdentifier := by
  cases h with
  | primary h =>
    cases h with
    | var ht => exact ⟨rfl, ht⟩

lemma Call.object_of_get {ts i object name} (h : Call ts (.get i object name)) :
    ∃ us dot, ts = us ++ [dot, name] ∧ Call us object ∧ dot.isSymbol .dot ∧ name.isIdentifier := by
  cases h with
  | primary h => cases h
  | get hobject hdot hname => exact ⟨_, _, rfl, hobject, hdot, hname⟩

end Tree

namespace Reading

open GermanLox.Parser

lemma overlong_eq_nil {cause : SyntaxFault} {count : Nat} {ts : List Token}
    (h : overlong cause count ts = []) : count < maxEntries := by
  by_contra hcount
  simp [overlong, Nat.le_of_not_lt hcount] at h

mutual

theorem Primary.tree {k ts e k' ds} (h : Primary k ts e k' ds) (hds : ds = []) :
    Tree.Primary ts e := by
  match h with
  | .literal h => exact .literal h
  | .super ht hdot hmethod => exact .super ht hdot hmethod
  | .this ht => exact .this ht
  | .var ht => exact .var ht
  | .grouping hopening he hclosing => exact .grouping hopening (he.tree hds) hclosing

theorem Call.tree {k ts e k' ds} (h : Call k ts e k' ds) (hds : ds = []) : Tree.Call ts e := by
  match h with
  | .primary h => exact .primary (h.tree hds)
  | .call hcallee hopening hargs hclosing =>
    obtain ⟨h₁, h₂⟩ := List.append_eq_nil_iff.mp hds
    exact .call (hcallee.tree h₁) hopening (hargs.tree h₂) hclosing
  | .get hobject hdot hname => exact .get (hobject.tree hds) hdot hname

theorem Arguments.tree {k ts es k' ds} (h : Arguments k ts es k' ds) (hds : ds = []) :
    Tree.Arguments ts es := by
  match h with
  | .none => exact .none
  | .some h =>
    obtain ⟨hentries, hlen⟩ := h.tree hds
    exact .some hentries (by omega)

/-- Entries that leave no note stay within the limit. -/
theorem Entries.tree {count k ts es k' ds} (h : Entries count k ts es k' ds) (hds : ds = []) :
    Tree.Entries ts es ∧ count + es.length ≤ maxEntries := by
  match h with
  | .last he =>
    obtain ⟨h₁, h₂⟩ := List.append_eq_nil_iff.mp hds
    exact ⟨.last (he.tree h₂), overlong_eq_nil h₁⟩
  | .more he hcomma hes =>
    obtain ⟨h₁, h₂⟩ := List.append_eq_nil_iff.mp hds
    obtain ⟨-, h₁⟩ := List.append_eq_nil_iff.mp h₁
    obtain ⟨hentries, hlen⟩ := hes.tree h₂
    exact ⟨.more (he.tree h₁) hcomma hentries, by simp only [List.length_cons]; omega⟩

theorem Unary.tree {k ts e k' ds} (h : Unary k ts e k' ds) (hds : ds = []) : Tree.Unary ts e := by
  match h with
  | .call h => exact .call (h.tree hds)
  | .sign hop he => exact (he.tree hds).of_ofKind? hop

theorem Operation.tree {ps k ts e k' ds} (h : Operation ps k ts e k' ds) (hds : ds = []) :
    Tree.Operation ps ts e := by
  match h with
  | .unary h => exact .unary (h.tree hds)
  | .operand h => exact .operand (h.tree hds)
  | .apply hleft hop hright =>
    obtain ⟨h₁, h₂⟩ := List.append_eq_nil_iff.mp hds
    exact .sign (hleft.tree h₁) (Tree.sign_iff.mpr ⟨_, hop, rfl⟩) (hright.tree h₂)

theorem Expression.tree {k ts e k' ds} (h : Expression k ts e k' ds) (hds : ds = []) :
    Tree.Expression ts e := by
  match h with
  | .operation h => exact .operation (h.tree hds)
  | .assign htarget hsign hvalue =>
    obtain ⟨h₁, h₂⟩ := List.append_eq_nil_iff.mp hds
    obtain ⟨rfl, hname⟩ := ((htarget.tree h₁).call_of_isTarget rfl).eq_of_var
    exact .assign hname hsign (hvalue.tree h₂)
  | .set htarget hsign hvalue =>
    obtain ⟨h₁, h₂⟩ := List.append_eq_nil_iff.mp hds
    obtain ⟨us, dot, rfl, hobject, hdot, hname⟩ :=
      ((htarget.tree h₁).call_of_isTarget rfl).object_of_get
    simpa using Tree.Expression.set hobject hdot hname hsign (hvalue.tree h₂)
  | .invalid _ _ _ _ => simp at hds

end

lemma Optional.tree {k ts e k' ds} (h : Optional k ts e k' ds) (hds : ds = []) :
    Tree.Optional ts e := by
  cases h with
  | none => exact .none
  | some h => exact .some (h.tree hds)

lemma Names.tree {count ts names ds} (h : Names count ts names ds) (hds : ds = []) :
    Tree.Names ts names ∧ count + names.length ≤ maxEntries := by
  induction h with
  | last ht => exact ⟨.last ht, overlong_eq_nil hds⟩
  | more ht hcomma _ ih =>
    obtain ⟨-, h₂⟩ := List.append_eq_nil_iff.mp hds
    obtain ⟨hnames, hlen⟩ := ih h₂
    exact ⟨.more ht hcomma hnames, by simp only [List.length_cons]; omega⟩

lemma Parameters.tree {ts names ds} (h : Parameters ts names ds) (hds : ds = []) :
    Tree.Parameters ts names := by
  cases h with
  | none => exact .none
  | some h =>
    obtain ⟨hnames, hlen⟩ := h.tree hds
    exact .some hnames (by omega)

lemma Variable.tree {k ts s k' ds} (h : Variable k ts s k' ds) (hds : ds = []) :
    Tree.Variable ts s := by
  cases h with
  | plain hname hsemicolon => exact .plain hname hsemicolon
  | initialized hname hsign he hsemicolon =>
    exact .initialized hname hsign (he.tree hds) hsemicolon

lemma Initializer.tree {k ts s k' ds} (h : Initializer k ts s k' ds) (hds : ds = []) :
    Tree.Initializer ts s := by
  cases h with
  | none h => exact .none h
  | varDecl hkeyword h => exact .varDecl hkeyword (h.tree hds)
  | expression he hsemicolon => exact .expression (he.tree hds) hsemicolon

lemma Superclass.tree {k ts parent k'} (h : Superclass k ts parent k') :
    Tree.Superclass ts parent := by
  cases h with
  | none => exact .none
  | some hsign hname => exact .some hsign hname

/-- The condition of a counting loop, whatever number an empty one is given. -/
lemma Optional.condition {k ts e k' ds} (h : Optional k ts e k' ds) (hds : ds = []) (i : Nat) :
    Tree.Condition ts (loopCondition i e).1 := by
  cases h with
  | none => exact .always
  | some h => exact .expression (h.tree hds)

mutual

theorem Statement.tree {dangling k ts s k' ds} (h : Statement dangling k ts s k' ds)
    (hds : ds = []) : Tree.Statement dangling ts s := by
  match h with
  | .expression he hsemicolon => exact .expression (he.tree hds) hsemicolon
  | .print hkeyword he hsemicolon => exact .print hkeyword (he.tree hds) hsemicolon
  | .ret hkeyword hvalue hsemicolon => exact .ret hkeyword (hvalue.tree hds) hsemicolon
  | .block hopening hbody hclosing => exact .block hopening (hbody.tree hds) hclosing
  | .loop hkeyword hopening he hclosing hbody =>
    obtain ⟨h₁, h₂⟩ := List.append_eq_nil_iff.mp hds
    exact .loop hkeyword hopening (he.tree h₁) hclosing (hbody.tree h₂)
  | .count hkeyword hopening hfirst hcondition hsemicolon hincrement hclosing hbody =>
    obtain ⟨h, h₄⟩ := List.append_eq_nil_iff.mp hds
    obtain ⟨h, h₃⟩ := List.append_eq_nil_iff.mp h
    obtain ⟨h₁, h₂⟩ := List.append_eq_nil_iff.mp h
    exact .count hkeyword hopening (hfirst.tree h₁) (hcondition.condition h₂ _) hsemicolon
      (hincrement.tree h₃) hclosing (hbody.tree h₄)
  | .ifThen hkeyword hopening he hclosing hthen =>
    obtain ⟨h₁, h₂⟩ := List.append_eq_nil_iff.mp hds
    exact .ifThen hkeyword hopening (he.tree h₁) hclosing (hthen.tree h₂)
  | .ifElse hkeyword hopening he hclosing hthen hother helse =>
    obtain ⟨h, h₃⟩ := List.append_eq_nil_iff.mp hds
    obtain ⟨h₁, h₂⟩ := List.append_eq_nil_iff.mp h
    exact .ifElse hkeyword hopening (he.tree h₁) hclosing (hthen.tree h₂) hother (helse.tree h₃)

theorem Declaration.tree {dangling k ts s k' ds} (h : Declaration dangling k ts s k' ds)
    (hds : ds = []) : Tree.Declaration dangling ts s := by
  match h with
  | .classDecl hkeyword hname hparent hopening hmethods hclosing =>
    exact .classDecl hkeyword hname hparent.tree hopening (hmethods.tree hds) hclosing
  | .funDecl hkeyword hdecl => exact .funDecl hkeyword (hdecl.tree hds)
  | .varDecl hkeyword h => exact .varDecl hkeyword (h.tree hds)
  | .statement h => exact .statement (h.tree hds)

theorem Declarations.tree {k ts ss k' ds} (h : Declarations k ts ss k' ds) (hds : ds = []) :
    Tree.Declarations ts ss := by
  match h with
  | .nil => exact .nil
  | .cons hs hss =>
    obtain ⟨h₁, h₂⟩ := List.append_eq_nil_iff.mp hds
    exact .cons (hs.tree h₁) (hss.tree h₂)

theorem Function.tree {k ts decl k' ds} (h : Function k ts decl k' ds) (hds : ds = []) :
    Tree.Function ts decl := by
  match h with
  | .mk hname hopening hparams hclosing hbrace hbody hclosing' =>
    obtain ⟨h₁, h₂⟩ := List.append_eq_nil_iff.mp hds
    exact .mk hname hopening (hparams.tree h₁) hclosing hbrace (hbody.tree h₂) hclosing'

theorem Functions.tree {k ts decls k' ds} (h : Functions k ts decls k' ds) (hds : ds = []) :
    Tree.Functions ts decls := by
  match h with
  | .nil => exact .nil
  | .cons hdecl hdecls =>
    obtain ⟨h₁, h₂⟩ := List.append_eq_nil_iff.mp hds
    exact .cons (hdecl.tree h₁) (hdecls.tree h₂)

end
end Reading

namespace Tree

open GermanLox.Expr (unnumbered)
open Reading (overlong)

lemma overlong_of_lt {cause : SyntaxFault} {count : Nat} (h : count < Parser.maxEntries)
    (ts : List Token) : overlong cause count ts = [] :=
  if_neg (Nat.not_le.mpr h)

/-- A call on its own, at any level of operators. -/
lemma operation_of_call {k ts e k' ds} (h : Reading.Call k ts e k' ds) (ps : List Precedence) :
    Reading.Operation ps k ts e k' ds := by
  induction ps with
  | nil => exact .unary (.call h)
  | cons p ps ih => exact .operand ih

mutual

theorem Primary.reading {ts e} (h : Primary ts e) (k : Nat) :
    ∃ e' k', Reading.Primary k ts e' k' [] ∧ e'.unnumbered = e.unnumbered := by
  match h with
  | .literal h => exact ⟨_, _, .literal h, rfl⟩
  | .super ht hdot hmethod => exact ⟨_, _, .super ht hdot hmethod, rfl⟩
  | .this ht => exact ⟨_, _, .this ht, rfl⟩
  | .var ht => exact ⟨_, _, .var ht, rfl⟩
  | .grouping hopening he hclosing =>
    obtain ⟨e', k', he', heq⟩ := he.reading k
    exact ⟨_, _, .grouping hopening he' hclosing, congrArg (Expr.grouping 0) heq⟩

theorem Call.reading {ts e} (h : Call ts e) (k : Nat) :
    ∃ e' k', Reading.Call k ts e' k' [] ∧ e'.unnumbered = e.unnumbered := by
  match h with
  | .primary h =>
    obtain ⟨e', k', he', heq⟩ := h.reading k
    exact ⟨e', k', .primary he', heq⟩
  | .call hcallee hopening hargs hclosing =>
    obtain ⟨e', k₁, he', heq⟩ := hcallee.reading k
    obtain ⟨es', k', hes', hall⟩ := hargs.reading k₁
    refine ⟨_, _, .call he' hopening hes' hclosing, ?_⟩
    exact congrArg₂ (Expr.call 0 · _ ·) heq hall
  | .get hobject hdot hname =>
    obtain ⟨e', k', he', heq⟩ := hobject.reading k
    exact ⟨_, _, .get he' hdot hname, congrArg (Expr.get 0 · _) heq⟩

theorem Arguments.reading {ts es} (h : Arguments ts es) (k : Nat) :
    ∃ es' k', Reading.Arguments k ts es' k' [] ∧
      Expr.unnumberedAll es' = Expr.unnumberedAll es := by
  match h with
  | .none => exact ⟨_, _, .none, rfl⟩
  | .some h hlen =>
    obtain ⟨es', k', hes', hall⟩ := h.reading 0 (by simpa using hlen) k
    exact ⟨es', k', .some hes', hall⟩

theorem Entries.reading {ts es} (h : Entries ts es) (count : Nat)
    (hcount : count + es.length ≤ Parser.maxEntries) (k : Nat) :
    ∃ es' k', Reading.Entries count k ts es' k' [] ∧
      Expr.unnumberedAll es' = Expr.unnumberedAll es := by
  match h with
  | .last he =>
    obtain ⟨e', k', he', heq⟩ := he.reading k
    refine ⟨[e'], k', ?_, congrArg (· :: []) heq⟩
    simpa [overlong_of_lt hcount] using @Reading.Entries.last count _ _ _ _ _ he'
  | .more he hcomma hes =>
    simp only [List.length_cons] at hcount
    obtain ⟨e', k₁, he', heq⟩ := he.reading k
    obtain ⟨es', k', hes', hall⟩ := hes.reading (count + 1) (by omega) k₁
    refine ⟨e' :: es', k', ?_, congrArg₂ List.cons heq hall⟩
    have hlt : count < Parser.maxEntries := by omega
    simpa [overlong_of_lt hlt] using
      @Reading.Entries.more count _ _ _ _ _ _ _ _ _ _ he' hcomma hes'

theorem Unary.reading {ts e} (h : Unary ts e) (k : Nat) :
    ∃ e' k', Reading.Unary k ts e' k' [] ∧ e'.unnumbered = e.unnumbered := by
  match h with
  | .call h =>
    obtain ⟨e', k', he', heq⟩ := h.reading k
    exact ⟨e', k', .call he', heq⟩
  | @Unary.not _ t _ _ ht he =>
    have hop : UnaryOp.ofKind? t.kind = some .not := by rw [Reading.eq_symbol ht]; rfl
    obtain ⟨e', k', he', heq⟩ := he.reading k
    exact ⟨_, _, .sign hop he', congrArg (Expr.unary 0 _ _) heq⟩
  | @Unary.negate _ t _ _ ht he =>
    have hop : UnaryOp.ofKind? t.kind = some .negate := by rw [Reading.eq_symbol ht]; rfl
    obtain ⟨e', k', he', heq⟩ := he.reading k
    exact ⟨_, _, .sign hop he', congrArg (Expr.unary 0 _ _) heq⟩

theorem Operation.reading {ps ts e} (h : Operation ps ts e) (k : Nat) :
    ∃ e' k', Reading.Operation ps k ts e' k' [] ∧ e'.unnumbered = e.unnumbered := by
  match h with
  | .unary h =>
    obtain ⟨e', k', he', heq⟩ := h.reading k
    exact ⟨e', k', .unary he', heq⟩
  | .operand h =>
    obtain ⟨e', k', he', heq⟩ := h.reading k
    exact ⟨e', k', .operand he', heq⟩
  | @Operation.sign _ _ _ _ _ _ _ _ _ hleft hsign hright =>
    obtain ⟨l', k₁, hl', hleq⟩ := hleft.reading k
    obtain ⟨r', k₂, hr', hreq⟩ := hright.reading k₁
    obtain ⟨op, hop, rfl⟩ := sign_iff.mp hsign
    refine ⟨_, _, .apply hl' hop hr', ?_⟩
    rw [hsign.unnumbered_node k₂, hsign.unnumbered_node, hleq, hreq]

theorem Expression.reading {ts e} (h : Expression ts e) (k : Nat) :
    ∃ e' k', Reading.Expression k ts e' k' [] ∧ e'.unnumbered = e.unnumbered := by
  match h with
  | .operation h =>
    obtain ⟨e', k', he', heq⟩ := h.reading k
    exact ⟨e', k', .operation he', heq⟩
  | .assign hname hsign hvalue =>
    obtain ⟨v', k', hv', heq⟩ := hvalue.reading (k + 1)
    refine ⟨_, _, .assign (operation_of_call (.primary (.var hname)) _) hsign hv', ?_⟩
    exact congrArg (Expr.assign 0 _) heq
  | .set hobject hdot hname hsign hvalue =>
    obtain ⟨o', k₁, ho', hoeq⟩ := hobject.reading k
    obtain ⟨v', k', hv', hveq⟩ := hvalue.reading (k₁ + 1)
    have hset := Reading.Expression.set (operation_of_call (.get ho' hdot hname) _) hsign hv'
    refine ⟨_, _, by simpa using hset, ?_⟩
    exact congrArg₂ (Expr.set 0 · _ ·) hoeq hveq

end

lemma Optional.reading {ts e} (h : Optional ts e) (k : Nat) :
    ∃ e' k', Reading.Optional k ts e' k' [] ∧ e'.map unnumbered = e.map unnumbered := by
  cases h with
  | none => exact ⟨_, k, .none, rfl⟩
  | some h =>
    obtain ⟨e', k', he', heq⟩ := h.reading k
    exact ⟨_, k', .some he', congrArg Option.some heq⟩

lemma Names.reading {ts names} (h : Names ts names) (count : Nat)
    (hcount : count + names.length ≤ Parser.maxEntries) : Reading.Names count ts names [] := by
  induction h generalizing count with
  | last ht => simpa [overlong_of_lt hcount] using @Reading.Names.last count _ ht
  | more ht hcomma _ ih =>
    simp only [List.length_cons] at hcount
    have hlt : count < Parser.maxEntries := by omega
    have hnames := ih (count + 1) (by omega)
    simpa [overlong_of_lt hlt] using @Reading.Names.more count _ _ _ _ _ ht hcomma hnames

lemma Parameters.reading {ts names} (h : Parameters ts names) :
    Reading.Parameters ts names [] := by
  cases h with
  | none => exact .none
  | some h hlen => exact .some (h.reading 0 (by simpa using hlen))

lemma Variable.reading {ts s} (h : Variable ts s) (k : Nat) :
    ∃ s' k', Reading.Variable k ts s' k' [] ∧ s'.unnumbered = s.unnumbered := by
  cases h with
  | plain hname hsemicolon => exact ⟨_, _, .plain hname hsemicolon, rfl⟩
  | initialized hname hsign he hsemicolon =>
    obtain ⟨e', k', he', heq⟩ := he.reading k
    exact ⟨_, _, .initialized hname hsign he' hsemicolon,
      congrArg (fun e => Stmt.varDecl _ (some e)) heq⟩

lemma Initializer.reading {ts s} (h : Initializer ts s) (k : Nat) :
    ∃ s' k', Reading.Initializer k ts s' k' [] ∧
      s'.map Stmt.unnumbered = s.map Stmt.unnumbered := by
  cases h with
  | none h => exact ⟨_, k, .none h, rfl⟩
  | varDecl hkeyword h =>
    obtain ⟨s', k', hs', heq⟩ := h.reading k
    exact ⟨some s', k', .varDecl hkeyword hs', congrArg some heq⟩
  | expression he hsemicolon =>
    obtain ⟨e', k', he', heq⟩ := he.reading k
    exact ⟨_, k', .expression he' hsemicolon, congrArg (fun e => some (Stmt.expression e)) heq⟩

lemma Superclass.reading {ts parent} (h : Superclass ts parent) (k : Nat) :
    ∃ parent' k', Reading.Superclass k ts parent' k' ∧
      parent'.map unnumbered = parent.map unnumbered := by
  cases h with
  | none => exact ⟨_, k, .none, rfl⟩
  | some hsign hname => exact ⟨_, _, .some hsign hname, rfl⟩

/-- An empty condition is numbered when the loop is put together. -/
lemma Condition.reading {ts e} (h : Condition ts e) (k : Nat) :
    ∃ e' k', Reading.Optional k ts e' k' [] ∧
      ∀ i, (Reading.loopCondition i e').1.unnumbered = e.unnumbered := by
  cases h with
  | always => exact ⟨none, k, .none, fun _ => rfl⟩
  | expression h =>
    obtain ⟨e', k', he', heq⟩ := h.reading k
    exact ⟨some e', k', .some he', fun _ => heq⟩

lemma unnumbered_loopBlock {condition condition' : Expr} {body body' : Stmt}
    {increment increment' : Option Expr} {first first' : Option Stmt}
    (hcondition : condition'.unnumbered = condition.unnumbered)
    (hbody : body'.unnumbered = body.unnumbered)
    (hincrement : increment'.map unnumbered = increment.map unnumbered)
    (hfirst : first'.map Stmt.unnumbered = first.map Stmt.unnumbered) :
    (Reading.loopBlock (.loop condition' (Reading.loopBody body' increment')) first').unnumbered =
      (Reading.loopBlock (.loop condition (Reading.loopBody body increment)) first).unnumbered := by
  have hloop : (Reading.loopBody body' increment').unnumbered =
      (Reading.loopBody body increment).unnumbered := by
    cases increment <;> cases increment' <;> simp only [Option.map_some, Option.map_none,
      reduceCtorEq, Option.some.injEq] at hincrement
    · exact hbody
    · exact congrArg₂ (fun s e => Stmt.block [s, .expression e]) hbody hincrement
  cases first <;> cases first' <;> simp only [Option.map_some, Option.map_none,
      reduceCtorEq, Option.some.injEq] at hfirst
  · exact congrArg₂ Stmt.loop hcondition hloop
  · exact congrArg₂ (fun s l => Stmt.block [s, l]) hfirst (congrArg₂ Stmt.loop hcondition hloop)

mutual

theorem Statement.reading {dangling ts s} (h : Statement dangling ts s) (k : Nat) :
    ∃ s' k', Reading.Statement dangling k ts s' k' [] ∧ s'.unnumbered = s.unnumbered := by
  match h with
  | .expression he hsemicolon =>
    obtain ⟨e', k', he', heq⟩ := he.reading k
    exact ⟨_, _, .expression he' hsemicolon, congrArg Stmt.expression heq⟩
  | .print hkeyword he hsemicolon =>
    obtain ⟨e', k', he', heq⟩ := he.reading k
    exact ⟨_, _, .print hkeyword he' hsemicolon, congrArg Stmt.print heq⟩
  | .ret hkeyword hvalue hsemicolon =>
    obtain ⟨e', k', he', heq⟩ := hvalue.reading k
    exact ⟨_, _, .ret hkeyword he' hsemicolon, congrArg (Stmt.ret _) heq⟩
  | .block hopening hbody hclosing =>
    obtain ⟨body', k', hbody', heq⟩ := hbody.reading k
    exact ⟨_, _, .block hopening hbody' hclosing, congrArg Stmt.block heq⟩
  | .loop hkeyword hopening he hclosing hbody =>
    obtain ⟨e', k₁, he', heeq⟩ := he.reading k
    obtain ⟨s', k', hs', hseq⟩ := hbody.reading k₁
    exact ⟨_, _, .loop hkeyword hopening he' hclosing hs', congrArg₂ Stmt.loop heeq hseq⟩
  | .count hkeyword hopening hfirst hcondition hsemicolon hincrement hclosing hbody =>
    obtain ⟨first', k₁, hfirst', h₁⟩ := hfirst.reading k
    obtain ⟨condition', k₂, hcondition', h₂⟩ := hcondition.reading k₁
    obtain ⟨increment', k₃, hincrement', h₃⟩ := hincrement.reading k₂
    obtain ⟨body', k₄, hbody', h₄⟩ := hbody.reading k₃
    exact ⟨_, _,
      .count hkeyword hopening hfirst' hcondition' hsemicolon hincrement' hclosing hbody',
      unnumbered_loopBlock (h₂ k₄) h₄ h₃ h₁⟩
  | .ifThen hkeyword hopening he hclosing hthen =>
    obtain ⟨e', k₁, he', heeq⟩ := he.reading k
    obtain ⟨s', k', hs', hseq⟩ := hthen.reading k₁
    exact ⟨_, _, .ifThen hkeyword hopening he' hclosing hs',
      congrArg₂ (Stmt.ifElse · · none) heeq hseq⟩
  | .ifElse hkeyword hopening he hclosing hthen hother helse =>
    obtain ⟨e', k₁, he', heeq⟩ := he.reading k
    obtain ⟨s₁, k₂, hs₁, hseq₁⟩ := hthen.reading k₁
    obtain ⟨s₂, k', hs₂, hseq₂⟩ := helse.reading k₂
    refine ⟨_, _, .ifElse hkeyword hopening he' hclosing hs₁ hother hs₂, ?_⟩
    simp only [unnumbered, Stmt.unnumbered, Stmt.relabel] at heeq hseq₁ hseq₂ ⊢
    rw [heeq, hseq₁, hseq₂]

theorem Declaration.reading {dangling ts s} (h : Declaration dangling ts s) (k : Nat) :
    ∃ s' k', Reading.Declaration dangling k ts s' k' [] ∧ s'.unnumbered = s.unnumbered := by
  match h with
  | .classDecl hkeyword hname hparent hopening hmethods hclosing =>
    obtain ⟨parent', k₁, hparent', h₁⟩ := hparent.reading k
    obtain ⟨methods', k', hmethods', h₂⟩ := hmethods.reading k₁
    exact ⟨_, _, .classDecl hkeyword hname hparent' hopening hmethods' hclosing,
      congrArg₂ (Stmt.classDecl _) h₁ h₂⟩
  | .funDecl hkeyword hdecl =>
    obtain ⟨decl', k', hdecl', heq⟩ := hdecl.reading k
    exact ⟨_, _, .funDecl hkeyword hdecl', congrArg Stmt.funDecl heq⟩
  | .varDecl hkeyword h =>
    obtain ⟨s', k', hs', heq⟩ := h.reading k
    exact ⟨s', k', .varDecl hkeyword hs', heq⟩
  | .statement h =>
    obtain ⟨s', k', hs', heq⟩ := h.reading k
    exact ⟨s', k', .statement hs', heq⟩

theorem Declarations.reading {ts ss} (h : Declarations ts ss) (k : Nat) :
    ∃ ss' k', Reading.Declarations k ts ss' k' [] ∧
      Stmt.unnumberedAll ss' = Stmt.unnumberedAll ss := by
  match h with
  | .nil => exact ⟨[], k, .nil, rfl⟩
  | .cons hs hss =>
    obtain ⟨s', k₁, hs', hseq⟩ := hs.reading k
    obtain ⟨ss', k', hss', hsseq⟩ := hss.reading k₁
    exact ⟨_, _, .cons hs' hss', congrArg₂ List.cons hseq hsseq⟩

theorem Function.reading {ts decl} (h : Function ts decl) (k : Nat) :
    ∃ decl' k', Reading.Function k ts decl' k' [] ∧ decl'.unnumbered = decl.unnumbered := by
  match h with
  | .mk hname hopening hparams hclosing hbrace hbody hclosing' =>
    obtain ⟨body', k', hbody', heq⟩ := hbody.reading k
    exact ⟨_, _, .mk hname hopening hparams.reading hclosing hbrace hbody' hclosing',
      congrArg (FunctionDecl.mk _ _) heq⟩

theorem Functions.reading {ts decls} (h : Functions ts decls) (k : Nat) :
    ∃ decls' k', Reading.Functions k ts decls' k' [] ∧
      FunctionDecl.unnumberedAll decls' = FunctionDecl.unnumberedAll decls := by
  match h with
  | .nil => exact ⟨[], k, .nil, rfl⟩
  | .cons hdecl hdecls =>
    obtain ⟨decl', k₁, hdecl', h₁⟩ := hdecl.reading k
    obtain ⟨decls', k', hdecls', h₂⟩ := hdecls.reading k₁
    exact ⟨_, _, .cons hdecl' hdecls', congrArg₂ List.cons h₁ h₂⟩

end

end Tree
end GermanLox
