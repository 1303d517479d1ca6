import GermanLox.Proofs.Reading.Basic
import Mathlib.Tactic.Common

/-!
# Well-formed trees

What reading guarantees of a tree beyond its type: names are not spelled like `dies` and `super`,
which stand for themselves; a superclass is a variable; and no branch or body of a loop declares a
name.
-/

namespace GermanLox

/-- A token with the lexeme that its kind asks for: reserved words are spelled as such, and names
are not. -/
structure Token.Proper (t : Token) : Prop where
  keyword : ∀ k, t.kind = .keyword k → t.lexeme = k.spelling
  name : t.kind = .identifier → ∀ k : Keyword, t.lexeme ≠ k.spelling

/-- A name that is not spelled like those that methods are run with. -/
structure Token.IsName (t : Token) : Prop where
  kind : t.kind = .identifier
  ne_this : t.lexeme ≠ thisName
  ne_super : t.lexeme ≠ superName

namespace Token.Proper

variable {t : Token}

lemma isName (h : t.Proper) (ht : t.isIdentifier) : t.IsName := by
  have hkind : t.kind = .identifier := by simpa [Token.isIdentifier] using ht
  exact ⟨hkind, h.name hkind .dies, h.name hkind .super⟩

lemma lexeme_this (h : t.Proper) (ht : t.isKeyword .dies) : t.lexeme = thisName :=
  h.keyword .dies (by simpa [Token.isKeyword] using ht)

lemma lexeme_super (h : t.Proper) (ht : t.isKeyword .super) : t.lexeme = superName :=
  h.keyword .super (by simpa [Token.isKeyword] using ht)

end Token.Proper

mutual

def Expr.Formed : Expr → Prop
  | .literal .. => True
  | .grouping _ e => e.Formed
  | .unary _ _ _ e => e.Formed
  | .binary _ _ _ left right => left.Formed ∧ right.Formed
  | .logical _ _ _ left right => left.Formed ∧ right.Formed
  | .var _ name => name.IsName
  | .assign _ name value => name.IsName ∧ value.Formed
  | .call _ callee _ arguments => callee.Formed ∧ Expr.FormedAll arguments
  | .get _ object _ => object.Formed
  | .set _ object _ value => object.Formed ∧ value.Formed
  | .this _ keyword => keyword.lexeme = thisName
  | .super _ keyword _ => keyword.lexeme = superName

def Expr.FormedAll : List Expr → Prop
  | [] => True
  | e :: es => e.Formed ∧ Expr.FormedAll es

end

def Expr.FormedOf : Option Expr → Prop
  | none => True
  | some e => e.Formed

def Expr.isVar : Expr → Bool
  | .var .. => true
  | _ => false

/-- The name that a statement declares where it stands. -/
def Stmt.declared? : Stmt → Option Token
  | .varDecl name _ => some name
  | .funDecl decl => some decl.name
  | .classDecl name _ _ => some name
  | _ => none

mutual

def Stmt.Formed : Stmt → Prop
  | .expression e => e.Formed
  | .print e => e.Formed
  | .varDecl name initializer => name.IsName ∧ Expr.FormedOf initializer
  | .block body => Stmt.FormedAll body
  | .ifElse condition thenBranch none =>
    condition.Formed ∧ thenBranch.Formed ∧ thenBranch.declared? = none
  | .ifElse condition thenBranch (some elseBranch) =>
    condition.Formed ∧ (thenBranch.Formed ∧ thenBranch.declared? = none) ∧
      elseBranch.Formed ∧ elseBranch.declared? = none
  | .loop condition body => condition.Formed ∧ body.Formed ∧ body.declared? = none
  | .funDecl decl => decl.name.IsName ∧ decl.Formed
  | .ret _ value => Expr.FormedOf value
  | .classDecl name superclass methods =>
    name.IsName ∧ (Expr.FormedOf superclass ∧ superclass.all Expr.isVar) ∧
      FunctionDecl.FormedAll methods

def Stmt.FormedAll : List Stmt → Prop
  | [] => True
  | s :: ss => s.Formed ∧ Stmt.FormedAll ss

def FunctionDecl.Formed : FunctionDecl → Prop
  | ⟨_, params, body⟩ => (∀ t ∈ params, t.IsName) ∧ Stmt.FormedAll body

def FunctionDecl.FormedAll : List FunctionDecl → Prop
  | [] => True
  | decl :: decls => decl.Formed ∧ FunctionDecl.FormedAll decls

end

namespace Reading

lemma proper_of_append {ts us : List Token} (h : ∀ t ∈ ts ++ us, t.Proper) :
    (∀ t ∈ ts, t.Proper) ∧ ∀ t ∈ us, t.Proper :=
  List.forall_mem_append.mp h

lemma proper_of_cons {t : Token} {ts : List Token} (h : ∀ u ∈ t :: ts, u.Proper) :
    t.Proper ∧ ∀ u ∈ ts, u.Proper :=
  List.forall_mem_cons.mp h

mutual

lemma Primary.formed {k ts e k' ds} (h : Primary k ts e k' ds) (hts : ∀ t ∈ ts, t.Proper) :
    e.Formed := by
  match h with
  | .literal _ => trivial
  | .super ht _ _ => exact (hts _ (List.mem_cons_self ..)).lexeme_super ht
  | .this ht => exact (hts _ (List.mem_cons_self ..)).lexeme_this ht
  | .var ht => exact (hts _ (List.mem_cons_self ..)).isName ht
  | .grouping _ he _ => exact he.formed (proper_of_append (proper_of_cons hts).2).1

lemma Call.formed {k ts e k' ds} (h : Call k ts e k' ds) (hts : ∀ t ∈ ts, t.Proper) :
    e.Formed := by
  match h with
  | .primary h => exact h.formed hts
  | .call hcallee _ hargs _ =>
    obtain ⟨h₁, -⟩ := proper_of_append hts
    obtain ⟨h₁, h₂⟩ := proper_of_append h₁
    exact ⟨hcallee.formed h₁, hargs.formed (proper_of_cons h₂).2⟩
  | .get hobject _ _ => exact hobject.formed (proper_of_append hts).1

lemma Arguments.formed {k ts es k' ds} (h : Arguments k ts es k' ds)
    (hts : ∀ t ∈ ts, t.Proper) : Expr.FormedAll es := by
  match h with
  | .none => trivial
  | .some h => exact h.formed hts

lemma Entries.formed {count k ts es k' ds} (h : Entries count k ts es k' ds)
    (hts : ∀ t ∈ ts, t.Proper) : Expr.FormedAll es := by
  match h with
  | .last he => exact ⟨he.formed hts, trivial⟩
  | .more he _ hes =>
    obtain ⟨h₁, h₂⟩ := proper_of_append hts
    exact ⟨he.formed h₁, hes.formed (proper_of_cons h₂).2⟩

lemma Unary.formed {k ts e k' ds} (h : Unary k ts e k' ds) (hts : ∀ t ∈ ts, t.Proper) :
    e.Formed := by
  match h with
  | .call h => exact h.formed hts
  | .sign _ he => exact he.formed (proper_of_cons hts).2

lemma Operation.formed {ps k ts e k' ds} (h : Operation ps k ts e k' ds)
    (hts : ∀ t ∈ ts, t.Proper) : e.Formed := by
  match h with
  | .unary h => exact h.formed hts
  | .operand h => exact h.formed hts
  | @Operation.apply _ _ _ _ _ _ _ _ op _ _ _ _ hleft _ hright =>
    obtain ⟨h₁, h₂⟩ := proper_of_append hts
    have hboth := And.intro (hleft.formed h₁) (hright.formed (proper_of_cons h₂).2)
    cases op <;> exact hboth

lemma Expression.formed {k ts e k' ds} (h : Expression k ts e k' ds)
    (hts : ∀ t ∈ ts, t.Proper) : e.Formed := by
  match h with
  | .operation h => exact h.formed hts
  | .assign htarget _ hvalue =>
    obtain ⟨h₁, h₂⟩ := proper_of_append hts
    exact ⟨htarget.formed h₁, hvalue.formed (proper_of_cons h₂).2⟩
  | .set htarget _ hvalue =>
    obtain ⟨h₁, h₂⟩ := proper_of_append hts
    exact ⟨htarget.formed h₁, hvalue.formed (proper_of_cons h₂).2⟩
  | .invalid htarget _ _ _ => exact htarget.formed (proper_of_append hts).1

end

lemma Optional.formed {k ts e k' ds} (h : Optional k ts e k' ds) (hts : ∀ t ∈ ts, t.Proper) :
    Expr.FormedOf e := by
  cases h with
  | none => trivial
  | some h => exact h.formed hts

lemma Names.formed {count ts names ds} (h : Names count ts names ds)
    (hts : ∀ t ∈ ts, t.Proper) : ∀ t ∈ names, t.IsName := by
  induction h with
  | last ht => simpa using (hts _ (List.mem_cons_self ..)).isName ht
  | more ht _ _ ih =>
    obtain ⟨h₁, h₂⟩ := proper_of_cons hts
    exact List.forall_mem_cons.mpr ⟨h₁.isName ht, ih (proper_of_cons h₂).2⟩

lemma Parameters.formed {ts names ds} (h : Parameters ts names ds) (hts : ∀ t ∈ ts, t.Proper) :
    ∀ t ∈ names, t.IsName := by
  cases h with
  | none => simp
  | some h => exact h.formed hts

lemma Variable.formed {k ts s k' ds} (h : Variable k ts s k' ds) (hts : ∀ t ∈ ts, t.Proper) :
    s.Formed := by
  obtain ⟨hname, _⟩ | ⟨hname, _, he, _⟩ := h
  · exact ⟨(hts _ (List.mem_cons_self ..)).isName hname, trivial⟩
  · obtain ⟨h₁, -⟩ := proper_of_append hts
    obtain ⟨h₁, h₂⟩ := proper_of_cons h₁
    exact ⟨h₁.isName hname, he.formed (proper_of_cons h₂).2⟩

lemma Initializer.formed {k ts s k' ds} (h : Initializer k ts s k' ds)
    (hts : ∀ t ∈ ts, t.Proper) : Stmt.FormedAll s.toList := by
  cases h with
  | none => trivial
  | varDecl _ h => exact ⟨h.formed (proper_of_cons hts).2, trivial⟩
  | expression he _ => exact ⟨he.formed (proper_of_append hts).1, trivial⟩

lemma Superclass.formed {k ts e k'} (h : Superclass k ts e k') (hts : ∀ t ∈ ts, t.Proper) :
    Expr.FormedOf e ∧ e.all Expr.isVar := by
  cases h with
  | none => exact ⟨trivial, rfl⟩
  | some _ hname => exact ⟨(hts _ (by simp)).isName hname, rfl⟩

/-- A statement that is well-formed and declares nothing. -/
def Plain (s : Stmt) : Prop :=
  s.Formed ∧ s.declared? = none

lemma plain_loopBlock {k : Nat} {condition : Option Expr} {body : Stmt} {increment : Option Expr}
    {first : Option Stmt} (hfirst : Stmt.FormedAll first.toList)
    (hcondition : Expr.FormedOf condition) (hincrement : Expr.FormedOf increment)
    (hbody : Plain body) :
    Plain (loopBlock (.loop (loopCondition k condition).1 (loopBody body increment)) first) := by
  have hinner : Plain (loopBody body increment) := by
    cases increment with
    | none => exact hbody
    | some e => exact ⟨⟨hbody.1, hincrement, trivial⟩, rfl⟩
  have hloop : Plain (.loop (loopCondition k condition).1 (loopBody body increment)) := by
    cases condition with
    | none => exact ⟨⟨trivial, hinner⟩, rfl⟩
    | some e => exact ⟨⟨hcondition, hinner⟩, rfl⟩
  cases first with
  | none => exact hloop
  | some s => exact ⟨⟨hfirst.1, hloop.1, trivial⟩, rfl⟩

mutual

lemma Statement.formed {dangling k ts s k' ds} (h : Statement dangling k ts s k' ds)
    (hts : ∀ t ∈ ts, t.Proper) : Plain s := by
  match h with
  | .expression he _ => exact ⟨he.formed (proper_of_append hts).1, rfl⟩
  | .print _ he _ => exact ⟨he.formed (proper_of_append (proper_of_cons hts).2).1, rfl⟩
  | .ret _ hvalue _ => exact ⟨hvalue.formed (proper_of_append (proper_of_cons hts).2).1, rfl⟩
  | .block _ hbody _ => exact ⟨hbody.formed (proper_of_append (proper_of_cons hts).2).1, rfl⟩
  | .loop _ _ he _ hbody =>
    obtain ⟨h₁, h₂⟩ := proper_of_append hts
    exact ⟨⟨he.formed (proper_of_cons (proper_of_cons h₁).2).2,
      hbody.formed (proper_of_cons h₂).2⟩, rfl⟩
  | .count _ _ hfirst hcondition _ hincrement _ hbody =>
    obtain ⟨h₃, h₄⟩ := proper_of_append hts
    obtain ⟨h₂, h₃⟩ := proper_of_append h₃
    obtain ⟨h₁, h₂⟩ := proper_of_append h₂
    exact plain_loopBlock (hfirst.formed (proper_of_cons (proper_of_cons h₁).2).2)
      (hcondition.formed h₂) (hincrement.formed (proper_of_cons h₃).2)
      (hbody.formed (proper_of_cons h₄).2)
  | .ifThen _ _ he _ hthen =>
    obtain ⟨h₁, h₂⟩ := proper_of_append hts
    exact ⟨⟨he.formed (proper_of_cons (proper_of_cons h₁).2).2,
      hthen.formed (proper_of_cons h₂).2⟩, rfl⟩
  | .ifElse _ _ he _ hthen _ helse =>
    obtain ⟨h₂, h₃⟩ := proper_of_append hts
    obtain ⟨h₁, h₂⟩ := proper_of_append h₂
    exact ⟨⟨he.formed (proper_of_cons (proper_of_cons h₁).2).2,
      hthen.formed (proper_of_cons h₂).2, helse.formed (proper_of_cons h₃).2⟩, rfl⟩

lemma Declaration.formed {dangling k ts s k' ds} (h : Declaration dangling k ts s k' ds)
    (hts : ∀ t ∈ ts, t.Proper) : s.Formed := by
  match h with
  | .classDecl _ hname hparent _ hmethods _ =>
    obtain ⟨h₂, -⟩ := proper_of_append hts
    obtain ⟨h₁, h₂⟩ := proper_of_append h₂
    obtain ⟨h₀, h₁⟩ := proper_of_cons (proper_of_cons h₁).2
    exact ⟨h₀.isName hname, hparent.formed h₁, hmethods.formed (proper_of_cons h₂).2⟩
  | .funDecl _ hdecl => exact hdecl.formed (proper_of_cons hts).2
  | .varDecl _ h => exact h.formed (proper_of_cons hts).2
  | .statement h => exact (h.formed hts).1

lemma Declarations.formed {k ts ss k' ds} (h : Declarations k ts ss k' ds)
    (hts : ∀ t ∈ ts, t.Proper) : Stmt.FormedAll ss := by
  match h with
  | .nil => trivial
  | .cons hs hss =>
    obtain ⟨h₁, h₂⟩ := proper_of_append hts
    exact ⟨hs.formed h₁, hss.formed h₂⟩

lemma Function.formed {k ts decl k' ds} (h : Function k ts decl k' ds)
    (hts : ∀ t ∈ ts, t.Proper) : decl.name.IsName ∧ decl.Formed := by
  match h with
  | .mk hname _ hparams _ _ hbody _ =>
    obtain ⟨h₂, -⟩ := proper_of_append hts
    obtain ⟨h₁, h₂⟩ := proper_of_append h₂
    obtain ⟨h₀, h₁⟩ := proper_of_cons h₁
    exact ⟨h₀.isName hname, hparams.formed (proper_of_cons h₁).2,
      hbody.formed (proper_of_cons (proper_of_cons h₂).2).2⟩

lemma Functions.formed {k ts decls k' ds} (h : Functions k ts decls k' ds)
    (hts : ∀ t ∈ ts, t.Proper) : FunctionDecl.FormedAll decls := by
  match h with
  | .nil => trivial
  | .cons hdecl hdecls =>
    obtain ⟨h₁, h₂⟩ := proper_of_append hts
    exact ⟨(hdecl.formed h₁).2, hdecls.formed h₂⟩

end

end Reading
end GermanLox
