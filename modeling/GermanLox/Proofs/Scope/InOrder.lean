import GermanLox.Proofs.Reading.Contents
import GermanLox.Proofs.Scope.Formed

/-!
# The order of a program

In a program that is read from tokens with growing lines, names are declared in the order of their
lines: a name comes after all of the statements before it in its scope, and before its own
initializer, parameters or body and all of the statements after it.
-/

namespace GermanLox

/-- The tokens of a function other than its name. -/
def FunctionDecl.inside (decl : FunctionDecl) : List Token :=
  decl.params ++ Stmt.tokensAll decl.body

/-- The tokens of a statement other than the name that it declares. -/
def Stmt.inside : Stmt → List Token
  | .varDecl _ initializer => Expr.tokensOf initializer
  | .funDecl decl => decl.inside
  | .classDecl _ superclass methods => Expr.tokensOf superclass ++ FunctionDecl.tokensAll methods
  | s => s.tokens

mutual

def Stmt.InOrder : Stmt → Prop
  | .varDecl name initializer => ∀ u ∈ Expr.tokensOf initializer, name.line < u.line
  | .block body => Stmt.InOrderAll body
  | .ifElse _ thenBranch none => thenBranch.InOrder
  | .ifElse _ thenBranch (some elseBranch) => thenBranch.InOrder ∧ elseBranch.InOrder
  | .loop _ body => body.InOrder
  | .funDecl decl => (∀ u ∈ decl.inside, decl.name.line < u.line) ∧ decl.InOrder
  | .classDecl name superclass methods =>
    (∀ u ∈ Expr.tokensOf superclass ++ FunctionDecl.tokensAll methods, name.line < u.line) ∧
      FunctionDecl.InOrderAll methods
  | _ => True

def Stmt.InOrderAll : List Stmt → Prop
  | [] => True
  | s :: ss =>
    (s.InOrder ∧ Stmt.InOrderAll ss) ∧
      (∀ u ∈ s.tokens, ∀ t ∈ ss.filterMap Stmt.declared?, u.line < t.line) ∧
      ∀ t ∈ s.declared?, ∀ u ∈ Stmt.tokensAll ss, t.line < u.line

def FunctionDecl.InOrder : FunctionDecl → Prop
  | ⟨_, params, body⟩ =>
    (∀ t ∈ params, ∀ u ∈ Stmt.tokensAll body, t.line < u.line) ∧ Stmt.InOrderAll body

def FunctionDecl.InOrderAll : List FunctionDecl → Prop
  | [] => True
  | decl :: decls => decl.InOrder ∧ FunctionDecl.InOrderAll decls

end

lemma Stmt.mem_tokens_of_declared {s : Stmt} {t : Token} (h : s.declared? = some t) :
    t ∈ s.tokens := by
  cases s with
  | varDecl => cases h; exact List.mem_cons_self ..
  | funDecl decl =>
    cases h
    obtain ⟨name, params, body⟩ := decl
    exact List.mem_cons_self ..
  | classDecl => cases h; exact List.mem_cons_self ..
  | _ => cases h

lemma Stmt.mem_tokensAll_of_declared {ss : List Stmt} {t : Token}
    (h : t ∈ ss.filterMap Stmt.declared?) : t ∈ Stmt.tokensAll ss := by
  induction ss with
  | nil => cases h
  | cons s ss ih =>
    rw [List.filterMap_cons] at h
    cases hs : s.declared? with
    | none =>
      rw [hs] at h
      exact List.mem_append_right _ (ih h)
    | some u =>
      rw [hs] at h
      rcases List.mem_cons.mp h with rfl | h
      · exact List.mem_append_left _ (Stmt.mem_tokens_of_declared hs)
      · exact List.mem_append_right _ (ih h)

lemma Stmt.inside_subset (s : Stmt) : ∀ u ∈ s.inside, u ∈ s.tokens := by
  intro u hu
  cases s with
  | varDecl => exact List.mem_cons_of_mem _ hu
  | funDecl decl =>
    obtain ⟨name, params, body⟩ := decl
    exact List.mem_cons_of_mem _ hu
  | classDecl => exact List.mem_cons_of_mem _ hu
  | _ => exact hu

lemma FunctionDecl.inside_subset (decl : FunctionDecl) : ∀ u ∈ decl.inside, u ∈ decl.tokens := by
  obtain ⟨name, params, body⟩ := decl
  exact fun u hu => List.mem_cons_of_mem _ hu

/-- A name comes before all that stands inside of its declaration. -/
lemma Stmt.InOrder.declared_lt_inside {s : Stmt} (h : s.InOrder) :
    ∀ t ∈ s.declared?, ∀ u ∈ s.inside, t.line < u.line := by
  intro t ht u hu
  cases s with
  | varDecl => cases ht; exact h u hu
  | funDecl => cases ht; exact h.1 u hu
  | classDecl => cases ht; exact h.1 u hu
  | _ => cases ht

namespace Reading

/-- Tokens with growing lines. -/
abbrev Growing (ts : List Token) : Prop :=
  ts.Pairwise fun t u => t.line < u.line

lemma Variable.inOrder {k ts s k' ds} (h : Variable k ts s k' ds) (hts : Growing ts) :
    s.InOrder := by
  cases h with
  | plain => exact fun u hu => (nomatch hu)
  | initialized _ _ he _ =>
    intro u hu
    refine (List.pairwise_cons.mp hts).1 u ?_
    have := he.account.mem_tokens hu
    simp [this]

lemma Initializer.inOrder {k ts s k' ds} (h : Initializer k ts s k' ds) (hts : Growing ts) :
    ∀ t ∈ s, t.InOrder := by
  cases h with
  | none => exact fun t ht => (nomatch ht)
  | varDecl _ h =>
    rintro t ⟨⟩
    exact h.inOrder (List.pairwise_cons.mp hts).2
  | expression =>
    rintro t ⟨⟩
    trivial

/-- A statement that is read declares no name. -/
lemma Statement.declared_eq_none {dangling k ts s k' ds} (h : Statement dangling k ts s k' ds) :
    s.declared? = none := by
  cases h with
  | @count _ _ _ _ _ first _ _ _ _ _ _ _ _ _ _ _ _ _ _ _ _ _ => cases first <;> rfl
  | _ => rfl

/-- A counting loop declares its variable before its condition, increment and body. -/
lemma inOrder_loopBlock {k : Nat} {condition : Option Expr} {body : Stmt}
    {increment : Option Expr} {first : Option Stmt} (hbody : body.InOrder)
    (hdeclared : body.declared? = none) (hfirst : ∀ s ∈ first, s.InOrder)
    (hlt : ∀ t ∈ Stmt.tokensAll first.toList, ∀ u, u ∈ Expr.tokensOf condition ∨
      u ∈ Expr.tokensOf increment ∨ u ∈ body.tokens → t.line < u.line) :
    (loopBlock (.loop (loopCondition k condition).1 (loopBody body increment)) first).InOrder := by
  have hloop : (Stmt.loop (loopCondition k condition).1 (loopBody body increment)).InOrder := by
    cases increment with
    | none => exact hbody
    | some e => exact ⟨⟨hbody, ⟨trivial, trivial⟩, by simp, by simp [Stmt.tokensAll]⟩, by
        simp [Stmt.declared?], by simp [hdeclared]⟩
  cases first with
  | none => exact hloop
  | some s =>
    refine ⟨⟨hfirst s rfl, ⟨hloop, trivial⟩, by simp, by simp [Stmt.tokensAll]⟩,
      by simp [Stmt.declared?], fun t ht u hu => ?_⟩
    refine hlt t (List.mem_append_left _ (Stmt.mem_tokens_of_declared ht)) u ?_
    rw [Stmt.tokensAll, Stmt.tokensAll, List.append_nil, Stmt.tokens, tokens_loopBody] at hu
    rcases List.mem_append.mp hu with hu | hu
    · cases condition with
      | none => cases hu
      | some e => exact .inl hu
    · rcases List.mem_append.mp hu with hu | hu
      · exact .inr (.inr hu)
      · exact .inr (.inl hu)

mutual

lemma Statement.inOrder {dangling k ts s k' ds} (h : Statement dangling k ts s k' ds)
    (hts : Growing ts) : s.InOrder := by
  match h with
  | .expression _ _ => trivial
  | .print _ _ _ => trivial
  | .ret _ _ _ => trivial
  | .block _ hbody _ =>
    exact hbody.inOrder (List.pairwise_append.mp (List.pairwise_cons.mp hts).2).1
  | .loop _ _ he _ hbody =>
    obtain ⟨-, h₂, -⟩ := List.pairwise_append.mp hts
    exact hbody.inOrder (List.pairwise_cons.mp h₂).2
  | .count _ _ hfirst hcondition _ hincrement _ hbody =>
    obtain ⟨h₃, h₄, hlt₃⟩ := List.pairwise_append.mp hts
    obtain ⟨h₂, -, hlt₂⟩ := List.pairwise_append.mp h₃
    obtain ⟨h₁, -, hlt₁⟩ := List.pairwise_append.mp h₂
    refine inOrder_loopBlock (hbody.inOrder (List.pairwise_cons.mp h₄).2) hbody.declared_eq_none
      (hfirst.inOrder (List.pairwise_cons.mp (List.pairwise_cons.mp h₁).2).2) ?_
    intro t ht u hu
    have ht₁ := hfirst.account.mem_tokens ht
    rcases hu with hu | hu | hu
    · exact hlt₁ t (by simp [ht₁]) u (hcondition.account.mem_tokens hu)
    · exact hlt₂ t (by simp [ht₁]) u (by simp [hincrement.account.mem_tokens hu])
    · exact hlt₃ t (by simp [ht₁]) u (by simp [hbody.account.mem_tokens hu])
  | .ifThen _ _ he _ hthen =>
    obtain ⟨-, h₂, -⟩ := List.pairwise_append.mp hts
    exact hthen.inOrder (List.pairwise_cons.mp h₂).2
  | .ifElse _ _ he _ hthen _ helse =>
    obtain ⟨h₂, h₃, -⟩ := List.pairwise_append.mp hts
    obtain ⟨-, h₂, -⟩ := List.pairwise_append.mp h₂
    exact ⟨hthen.inOrder (List.pairwise_cons.mp h₂).2, helse.inOrder (List.pairwise_cons.mp h₃).2⟩

lemma Declaration.inOrder {dangling k ts s k' ds} (h : Declaration dangling k ts s k' ds)
    (hts : Growing ts) : s.InOrder := by
  match h with
  | .classDecl _ _ hparent _ hmethods _ =>
    obtain ⟨h₁, -, -⟩ := List.pairwise_append.mp hts
    obtain ⟨h₁, h₂, hlt⟩ := List.pairwise_append.mp h₁
    refine ⟨fun u hu => ?_, hmethods.inOrder (List.pairwise_cons.mp h₂).2⟩
    rcases List.mem_append.mp hu with hu | hu
    · exact (List.pairwise_cons.mp (List.pairwise_cons.mp h₁).2).1 u
        (hparent.account.mem_tokens hu)
    · refine hlt _ (List.mem_cons_of_mem _ (List.mem_cons_self ..)) u ?_
      exact List.mem_cons_of_mem _ (hmethods.account.mem_tokens hu)
  | .funDecl _ hdecl => exact hdecl.inOrder (List.pairwise_cons.mp hts).2
  | .varDecl _ h => exact h.inOrder (List.pairwise_cons.mp hts).2
  | .statement h => exact h.inOrder hts

lemma Declarations.inOrder {k ts ss k' ds} (h : Declarations k ts ss k' ds)
    (hts : Growing ts) : Stmt.InOrderAll ss := by
  match h with
  | .nil => trivial
  | .cons hs hss =>
    obtain ⟨h₁, h₂, hlt⟩ := List.pairwise_append.mp hts
    refine ⟨⟨hs.inOrder h₁, hss.inOrder h₂⟩, fun u hu t ht => ?_, fun t ht u hu => ?_⟩
    · exact hlt u (hs.account.mem_tokens hu) t
        (hss.account.mem_tokens (Stmt.mem_tokensAll_of_declared ht))
    · exact hlt t (hs.account.mem_tokens (Stmt.mem_tokens_of_declared ht)) u
        (hss.account.mem_tokens hu)

lemma Function.inOrder {k ts decl k' ds} (h : Function k ts decl k' ds)
    (hts : Growing ts) : (∀ u ∈ decl.inside, decl.name.line < u.line) ∧ decl.InOrder := by
  match h with
  | @Function.mk k _ _ _ _ _ _ _ _ _ _ _ _ _ _ hparams _ _ hbody _ =>
    obtain ⟨h₁, -, -⟩ := List.pairwise_append.mp hts
    obtain ⟨h₁, h₂, hlt⟩ := List.pairwise_append.mp h₁
    have hparam := fun t (ht : t ∈ _) => (hparams.account k).mem_tokens (t := t) ht
    have hbodyToken := fun t (ht : t ∈ _) => hbody.account.mem_tokens (t := t) ht
    refine ⟨fun u hu => ?_, fun t ht u hu => ?_, ?_⟩
    · rcases List.mem_append.mp hu with hu | hu
      · exact (List.pairwise_cons.mp h₁).1 u (List.mem_cons_of_mem _ (hparam u hu))
      · refine hlt _ (List.mem_cons_self ..) u ?_
        exact List.mem_cons_of_mem _ (List.mem_cons_of_mem _ (hbodyToken u hu))
    · refine hlt t ?_ u ?_
      · exact List.mem_cons_of_mem _ (List.mem_cons_of_mem _ (hparam t ht))
      · exact List.mem_cons_of_mem _ (List.mem_cons_of_mem _ (hbodyToken u hu))
    · exact hbody.inOrder (List.pairwise_cons.mp (List.pairwise_cons.mp h₂).2).2

lemma Functions.inOrder {k ts decls k' ds} (h : Functions k ts decls k' ds)
    (hts : Growing ts) : FunctionDecl.InOrderAll decls := by
  match h with
  | .nil => trivial
  | .cons hdecl hdecls =>
    obtain ⟨h₁, h₂, -⟩ := List.pairwise_append.mp hts
    exact ⟨(hdecl.inOrder h₁).2, hdecls.inOrder h₂⟩

end

end Reading
end GermanLox
