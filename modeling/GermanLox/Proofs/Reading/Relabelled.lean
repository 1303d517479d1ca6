import GermanLox.Proofs.Reading.Basic
import GermanLox.Proofs.Relabel

/-!
# Reading tokens of the same kinds

Only the kinds of tokens count for reading. Tokens of the same kinds read as the same tree, with the
new tokens in it, and with numbers that start where they are asked to.
-/

namespace GermanLox

namespace Reading

variable {n : Nat} {g : Token → Token}

lemma isSymbol_relabel (hg : ∀ t, (g t).kind = t.kind) (s : Symbol) (t : Token) :
    (g t).isSymbol s = t.isSymbol s := by
  rw [Token.isSymbol, Token.isSymbol, hg]

lemma isKeyword_relabel (hg : ∀ t, (g t).kind = t.kind) (k : Keyword) (t : Token) :
    (g t).isKeyword k = t.isKeyword k := by
  rw [Token.isKeyword, Token.isKeyword, hg]

lemma isIdentifier_relabel (hg : ∀ t, (g t).kind = t.kind) (t : Token) :
    (g t).isIdentifier = t.isIdentifier := by
  rw [Token.isIdentifier, Token.isIdentifier, hg]

lemma at?_relabel (hg : ∀ t, (g t).kind = t.kind) (p : Precedence) (t : Token) :
    Operator.at? p (g t) = Operator.at? p t := by
  rw [Operator.at?, Operator.at?, hg]

/-- Whether an entry is noted does not depend on its tokens. -/
lemma overlong_congr {cause : SyntaxFault} {count : Nat} {ts : List Token}
    (h : overlong cause count ts = []) (us : List Token) : overlong cause count us = [] := by
  unfold overlong at h ⊢
  split at h
  · cases h
  · rename_i hcount
    rw [if_neg hcount]

lemma relabel_apply (op : Operator) (i : ExprId) (t : Token) (left right : Expr) :
    (op.apply i t left right).relabel (n + ·) g =
      op.apply (n + i) (g t) (left.relabel (n + ·) g) (right.relabel (n + ·) g) := by
  cases op <;> rfl

mutual

lemma Primary.relabel {k ts e k' ds} (hg : ∀ t, (g t).kind = t.kind) (h : Primary k ts e k' ds)
    (hds : ds = []) : Primary (n + k) (ts.map g) (e.relabel (n + ·) g) (n + k') [] := by
  match h with
  | .literal h => exact .literal (by rw [hg]; exact h)
  | .super ht hdot hmethod =>
    exact .super (by rwa [isKeyword_relabel hg]) (by rwa [isSymbol_relabel hg])
      (by rwa [isIdentifier_relabel hg])
  | .this ht => exact .this (by rwa [isKeyword_relabel hg])
  | .var ht => exact .var (by rwa [isIdentifier_relabel hg])
  | .grouping hopening he hclosing =>
    rw [List.map_append, List.map_cons]
    exact .grouping (by rwa [isSymbol_relabel hg]) (he.relabel hg hds)
      (by rwa [isSymbol_relabel hg])

lemma Call.relabel {k ts e k' ds} (hg : ∀ t, (g t).kind = t.kind) (h : Call k ts e k' ds)
    (hds : ds = []) : Call (n + k) (ts.map g) (e.relabel (n + ·) g) (n + k') [] := by
  match h with
  | .primary h => exact .primary (h.relabel hg hds)
  | .call hcallee hopening hargs hclosing =>
    obtain ⟨h₁, h₂⟩ := List.append_eq_nil_iff.mp hds
    rw [List.map_append, List.map_append, List.map_cons]
    exact .call (hcallee.relabel hg h₁) (by rwa [isSymbol_relabel hg]) (hargs.relabel hg h₂)
      (by rwa [isSymbol_relabel hg])
  | .get hobject hdot hname =>
    rw [List.map_append]
    exact .get (hobject.relabel hg hds) (by rwa [isSymbol_relabel hg])
      (by rwa [isIdentifier_relabel hg])

lemma Arguments.relabel {k ts es k' ds} (hg : ∀ t, (g t).kind = t.kind)
    (h : Arguments k ts es k' ds) (hds : ds = []) :
    Arguments (n + k) (ts.map g) (Expr.relabelAll (n + ·) g es) (n + k') [] := by
  match h with
  | .none => exact .none
  | .some h => exact .some (h.relabel hg hds)

lemma Entries.relabel {count k ts es k' ds} (hg : ∀ t, (g t).kind = t.kind)
    (h : Entries count k ts es k' ds) (hds : ds = []) :
    Entries count (n + k) (ts.map g) (Expr.relabelAll (n + ·) g es) (n + k') [] := by
  match h with
  | @Entries.last _ _ ts _ _ _ he =>
    obtain ⟨h₁, h₂⟩ := List.append_eq_nil_iff.mp hds
    have hlast := @Entries.last count _ _ _ _ _ (he.relabel hg h₂)
    rwa [overlong_congr h₁] at hlast
  | .more he hcomma hes =>
    obtain ⟨h₁, h₂⟩ := List.append_eq_nil_iff.mp hds
    obtain ⟨h₀, h₁⟩ := List.append_eq_nil_iff.mp h₁
    rw [List.map_append, List.map_cons]
    have hmore := Entries.more (he.relabel hg h₁) (by rwa [isSymbol_relabel hg])
      (hes.relabel hg h₂)
    rwa [overlong_congr h₀] at hmore

lemma Unary.relabel {k ts e k' ds} (hg : ∀ t, (g t).kind = t.kind) (h : Unary k ts e k' ds)
    (hds : ds = []) : Unary (n + k) (ts.map g) (e.relabel (n + ·) g) (n + k') [] := by
  match h with
  | .call h => exact .call (h.relabel hg hds)
  | .sign hop he => exact .sign (by rw [hg]; exact hop) (he.relabel hg hds)

lemma Operation.relabel {ps k ts e k' ds} (hg : ∀ t, (g t).kind = t.kind)
    (h : Operation ps k ts e k' ds) (hds : ds = []) :
    Operation ps (n + k) (ts.map g) (e.relabel (n + ·) g) (n + k') [] := by
  match h with
  | .unary h => exact .unary (h.relabel hg hds)
  | .operand h => exact .operand (h.relabel hg hds)
  | .apply hleft hop hright =>
    obtain ⟨h₁, h₂⟩ := List.append_eq_nil_iff.mp hds
    rw [List.map_append, List.map_cons, relabel_apply]
    exact .apply (hleft.relabel hg h₁) (by rw [at?_relabel hg]; exact hop) (hright.relabel hg h₂)

lemma Expression.relabel {k ts e k' ds} (hg : ∀ t, (g t).kind = t.kind)
    (h : Expression k ts e k' ds) (hds : ds = []) :
    Expression (n + k) (ts.map g) (e.relabel (n + ·) g) (n + k') [] := by
  match h with
  | .operation h => exact .operation (h.relabel hg hds)
  | .assign htarget hsign hvalue =>
    obtain ⟨h₁, h₂⟩ := List.append_eq_nil_iff.mp hds
    rw [List.map_append, List.map_cons]
    exact .assign (htarget.relabel hg h₁) (by rwa [isSymbol_relabel hg]) (hvalue.relabel hg h₂)
  | .set htarget hsign hvalue =>
    obtain ⟨h₁, h₂⟩ := List.append_eq_nil_iff.mp hds
    rw [List.map_append, List.map_cons]
    exact .set (htarget.relabel hg h₁) (by rwa [isSymbol_relabel hg]) (hvalue.relabel hg h₂)
  | .invalid htarget hbad hsign hvalue =>
    obtain ⟨-, h₂⟩ := List.append_eq_nil_iff.mp hds
    cases h₂

end

lemma Optional.relabel {k ts e k' ds} (hg : ∀ t, (g t).kind = t.kind)
    (h : Optional k ts e k' ds) (hds : ds = []) :
    Optional (n + k) (ts.map g) (e.map (Expr.relabel (n + ·) g)) (n + k') [] := by
  cases h with
  | none => exact .none
  | some h => exact .some (h.relabel hg hds)

lemma Names.relabel {count ts names ds} (hg : ∀ t, (g t).kind = t.kind)
    (h : Names count ts names ds) (hds : ds = []) :
    Names count (ts.map g) (names.map g) [] := by
  induction h with
  | @last count t ht =>
    have hlast := @Names.last count (g t) (by rwa [isIdentifier_relabel hg])
    rwa [overlong_congr hds] at hlast
  | more ht hcomma _ ih =>
    obtain ⟨h₁, h₂⟩ := List.append_eq_nil_iff.mp hds
    have hmore := Names.more (by rwa [isIdentifier_relabel hg]) (by rwa [isSymbol_relabel hg])
      (ih h₂)
    rwa [overlong_congr h₁] at hmore

lemma Parameters.relabel {ts names ds} (hg : ∀ t, (g t).kind = t.kind)
    (h : Parameters ts names ds) (hds : ds = []) : Parameters (ts.map g) (names.map g) [] := by
  cases h with
  | none => exact .none
  | some h => exact .some (h.relabel hg hds)

lemma Variable.relabel {k ts s k' ds} (hg : ∀ t, (g t).kind = t.kind)
    (h : Variable k ts s k' ds) (hds : ds = []) :
    Variable (n + k) (ts.map g) (s.relabel (n + ·) g) (n + k') [] := by
  cases h with
  | plain hname hsemicolon =>
    exact .plain (by rwa [isIdentifier_relabel hg]) (by rwa [isSymbol_relabel hg])
  | initialized hname hsign he hsemicolon =>
    rw [List.map_append, List.map_cons, List.map_cons]
    exact .initialized (by rwa [isIdentifier_relabel hg]) (by rwa [isSymbol_relabel hg])
      (he.relabel hg hds) (by rwa [isSymbol_relabel hg])

lemma Initializer.relabel {k ts s k' ds} (hg : ∀ t, (g t).kind = t.kind)
    (h : Initializer k ts s k' ds) (hds : ds = []) :
    Initializer (n + k) (ts.map g) (s.map (Stmt.relabel (n + ·) g)) (n + k') [] := by
  cases h with
  | none h => exact .none (by rwa [isSymbol_relabel hg])
  | varDecl hkeyword h => exact .varDecl (by rwa [isKeyword_relabel hg]) (h.relabel hg hds)
  | expression he hsemicolon =>
    rw [List.map_append]
    exact .expression (he.relabel hg hds) (by rwa [isSymbol_relabel hg])

lemma Superclass.relabel {k ts e k'} (hg : ∀ t, (g t).kind = t.kind) (h : Superclass k ts e k') :
    Superclass (n + k) (ts.map g) (e.map (Expr.relabel (n + ·) g)) (n + k') := by
  cases h with
  | none => exact .none
  | some hsign hname =>
    exact .some (by rwa [isSymbol_relabel hg]) (by rwa [isIdentifier_relabel hg])

lemma relabel_loopBlock (k : Nat) (condition : Option Expr) (body : Stmt)
    (increment : Option Expr) (first : Option Stmt) :
    (loopBlock (.loop (loopCondition k condition).1 (loopBody body increment)) first).relabel
        (n + ·) g =
      loopBlock (.loop (loopCondition (n + k) (condition.map (Expr.relabel (n + ·) g))).1
        (loopBody (body.relabel (n + ·) g) (increment.map (Expr.relabel (n + ·) g))))
        (first.map (Stmt.relabel (n + ·) g)) := by
  cases first <;> cases condition <;> cases increment <;> rfl

lemma loopCondition_relabel (k : Nat) (condition : Option Expr) :
    (loopCondition (n + k) (condition.map (Expr.relabel (n + ·) g))).2 =
      n + (loopCondition k condition).2 := by
  cases condition <;> rfl

mutual

lemma Statement.relabel {dangling k ts s k' ds} (hg : ∀ t, (g t).kind = t.kind)
    (h : Statement dangling k ts s k' ds) (hds : ds = []) :
    Statement dangling (n + k) (ts.map g) (s.relabel (n + ·) g) (n + k') [] := by
  match h with
  | .expression he hsemicolon =>
    rw [List.map_append]
    exact .expression (he.relabel hg hds) (by rwa [isSymbol_relabel hg])
  | .print hkeyword he hsemicolon =>
    rw [List.map_append, List.map_cons]
    exact .print (by rwa [isKeyword_relabel hg]) (he.relabel hg hds) (by rwa [isSymbol_relabel hg])
  | .ret hkeyword hvalue hsemicolon =>
    rw [List.map_append, List.map_cons]
    exact .ret (by rwa [isKeyword_relabel hg]) (hvalue.relabel hg hds)
      (by rwa [isSymbol_relabel hg])
  | .block hopening hbody hclosing =>
    rw [List.map_append, List.map_cons]
    exact .block (by rwa [isSymbol_relabel hg]) (hbody.relabel hg hds)
      (by rwa [isSymbol_relabel hg])
  | .loop hkeyword hopening he hclosing hbody =>
    obtain ⟨h₁, h₂⟩ := List.append_eq_nil_iff.mp hds
    rw [List.map_append, List.map_cons, List.map_cons, List.map_cons]
    exact .loop (by rwa [isKeyword_relabel hg]) (by rwa [isSymbol_relabel hg])
      (he.relabel hg h₁) (by rwa [isSymbol_relabel hg]) (hbody.relabel hg h₂)
  | .count hkeyword hopening hfirst hcondition hsemicolon hincrement hclosing hbody =>
    obtain ⟨h₃, h₄⟩ := List.append_eq_nil_iff.mp hds
    obtain ⟨h₂, h₃⟩ := List.append_eq_nil_iff.mp h₃
    obtain ⟨h₁, h₂⟩ := List.append_eq_nil_iff.mp h₂
    rw [relabel_loopBlock, ← loopCondition_relabel]
    simp only [List.map_append, List.map_cons]
    exact .count (by rwa [isKeyword_relabel hg]) (by rwa [isSymbol_relabel hg])
      (hfirst.relabel hg h₁) (hcondition.relabel hg h₂) (by rwa [isSymbol_relabel hg])
      (hincrement.relabel hg h₃) (by rwa [isSymbol_relabel hg]) (hbody.relabel hg h₄)
  | .ifThen hkeyword hopening he hclosing hthen =>
    obtain ⟨h₁, h₂⟩ := List.append_eq_nil_iff.mp hds
    rw [List.map_append, List.map_cons, List.map_cons, List.map_cons]
    exact .ifThen (by rwa [isKeyword_relabel hg]) (by rwa [isSymbol_relabel hg])
      (he.relabel hg h₁) (by rwa [isSymbol_relabel hg]) (hthen.relabel hg h₂)
  | .ifElse hkeyword hopening he hclosing hthen hother helse =>
    obtain ⟨h₂, h₃⟩ := List.append_eq_nil_iff.mp hds
    obtain ⟨h₁, h₂⟩ := List.append_eq_nil_iff.mp h₂
    simp only [List.map_append, List.map_cons]
    exact .ifElse (by rwa [isKeyword_relabel hg]) (by rwa [isSymbol_relabel hg])
      (he.relabel hg h₁) (by rwa [isSymbol_relabel hg]) (hthen.relabel hg h₂)
      (by rwa [isKeyword_relabel hg]) (helse.relabel hg h₃)

lemma Declaration.relabel {dangling k ts s k' ds} (hg : ∀ t, (g t).kind = t.kind)
    (h : Declaration dangling k ts s k' ds) (hds : ds = []) :
    Declaration dangling (n + k) (ts.map g) (s.relabel (n + ·) g) (n + k') [] := by
  match h with
  | .classDecl hkeyword hname hparent hopening hmethods hclosing =>
    simp only [List.map_append, List.map_cons]
    exact .classDecl (by rwa [isKeyword_relabel hg]) (by rwa [isIdentifier_relabel hg])
      (hparent.relabel hg) (by rwa [isSymbol_relabel hg]) (hmethods.relabel hg hds)
      (by rwa [isSymbol_relabel hg])
  | .funDecl hkeyword hdecl =>
    exact .funDecl (by rwa [isKeyword_relabel hg]) (hdecl.relabel hg hds)
  | .varDecl hkeyword h => exact .varDecl (by rwa [isKeyword_relabel hg]) (h.relabel hg hds)
  | .statement h => exact .statement (h.relabel hg hds)

lemma Declarations.relabel {k ts ss k' ds} (hg : ∀ t, (g t).kind = t.kind)
    (h : Declarations k ts ss k' ds) (hds : ds = []) :
    Declarations (n + k) (ts.map g) (Stmt.relabelAll (n + ·) g ss) (n + k') [] := by
  match h with
  | .nil => exact .nil
  | .cons hs hss =>
    obtain ⟨h₁, h₂⟩ := List.append_eq_nil_iff.mp hds
    rw [List.map_append]
    exact .cons (hs.relabel hg h₁) (hss.relabel hg h₂)

lemma Function.relabel {k ts decl k' ds} (hg : ∀ t, (g t).kind = t.kind)
    (h : Function k ts decl k' ds) (hds : ds = []) :
    Function (n + k) (ts.map g) (decl.relabel (n + ·) g) (n + k') [] := by
  match h with
  | .mk hname hopening hparams hclosing hbrace hbody hclosing' =>
    obtain ⟨h₁, h₂⟩ := List.append_eq_nil_iff.mp hds
    simp only [List.map_append, List.map_cons]
    exact .mk (by rwa [isIdentifier_relabel hg]) (by rwa [isSymbol_relabel hg])
      (hparams.relabel hg h₁) (by rwa [isSymbol_relabel hg]) (by rwa [isSymbol_relabel hg])
      (hbody.relabel hg h₂) (by rwa [isSymbol_relabel hg])

lemma Functions.relabel {k ts decls k' ds} (hg : ∀ t, (g t).kind = t.kind)
    (h : Functions k ts decls k' ds) (hds : ds = []) :
    Functions (n + k) (ts.map g) (FunctionDecl.relabelAll (n + ·) g decls) (n + k') [] := by
  match h with
  | .nil => exact .nil
  | .cons hdecl hdecls =>
    obtain ⟨h₁, h₂⟩ := List.append_eq_nil_iff.mp hds
    rw [List.map_append]
    exact .cons (hdecl.relabel hg h₁) (hdecls.relabel hg h₂)

end

end Reading
end GermanLox
