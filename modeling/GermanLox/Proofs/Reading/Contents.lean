import GermanLox.Proofs.Reading.Basic
import Mathlib.Tactic.Common

/-!
# What a tree holds

The numbers and tokens of a tree. Reading gives every expression a number of its own between two
bounds, and a tree holds no token more often than it was read.
-/

namespace GermanLox

mutual

def Expr.numbers : Expr → List ExprId
  | .literal i _ => [i]
  | .grouping i e => i :: e.numbers
  | .unary i _ _ e => i :: e.numbers
  | .binary i _ _ left right => i :: (left.numbers ++ right.numbers)
  | .logical i _ _ left right => i :: (left.numbers ++ right.numbers)
  | .var i _ => [i]
  | .assign i _ value => i :: value.numbers
  | .call i callee _ arguments => i :: (callee.numbers ++ Expr.numbersAll arguments)
  | .get i object _ => i :: object.numbers
  | .set i object _ value => i :: (object.numbers ++ value.numbers)
  | .this i _ => [i]
  | .super i _ _ => [i]

def Expr.numbersAll : List Expr → List ExprId
  | [] => []
  | e :: es => e.numbers ++ Expr.numbersAll es

end

def Expr.numbersOf : Option Expr → List ExprId
  | none => []
  | some e => e.numbers

mutual

def Stmt.numbers : Stmt → List ExprId
  | .expression e => e.numbers
  | .print e => e.numbers
  | .varDecl _ initializer => Expr.numbersOf initializer
  | .block body => Stmt.numbersAll body
  | .ifElse condition thenBranch none => condition.numbers ++ thenBranch.numbers
  | .ifElse condition thenBranch (some elseBranch) =>
    condition.numbers ++ (thenBranch.numbers ++ elseBranch.numbers)
  | .loop condition body => condition.numbers ++ body.numbers
  | .funDecl decl => decl.numbers
  | .ret _ value => Expr.numbersOf value
  | .classDecl _ superclass methods =>
    Expr.numbersOf superclass ++ FunctionDecl.numbersAll methods

def Stmt.numbersAll : List Stmt → List ExprId
  | [] => []
  | s :: ss => s.numbers ++ Stmt.numbersAll ss

def FunctionDecl.numbers : FunctionDecl → List ExprId
  | ⟨_, _, body⟩ => Stmt.numbersAll body

def FunctionDecl.numbersAll : List FunctionDecl → List ExprId
  | [] => []
  | decl :: decls => decl.numbers ++ FunctionDecl.numbersAll decls

end

mutual

def Expr.tokens : Expr → List Token
  | .literal .. => []
  | .grouping _ e => e.tokens
  | .unary _ _ t e => t :: e.tokens
  | .binary _ _ t left right => t :: (left.tokens ++ right.tokens)
  | .logical _ _ t left right => t :: (left.tokens ++ right.tokens)
  | .var _ name => [name]
  | .assign _ name value => name :: value.tokens
  | .call _ callee paren arguments => paren :: (callee.tokens ++ Expr.tokensAll arguments)
  | .get _ object name => name :: object.tokens
  | .set _ object name value => name :: (object.tokens ++ value.tokens)
  | .this _ keyword => [keyword]
  | .super _ keyword method => [keyword, method]

def Expr.tokensAll : List Expr → List Token
  | [] => []
  | e :: es => e.tokens ++ Expr.tokensAll es

end

def Expr.tokensOf : Option Expr → List Token
  | none => []
  | some e => e.tokens

mutual

def Stmt.tokens : Stmt → List Token
  | .expression e => e.tokens
  | .print e => e.tokens
  | .varDecl name initializer => name :: Expr.tokensOf initializer
  | .block body => Stmt.tokensAll body
  | .ifElse condition thenBranch none => condition.tokens ++ thenBranch.tokens
  | .ifElse condition thenBranch (some elseBranch) =>
    condition.tokens ++ (thenBranch.tokens ++ elseBranch.tokens)
  | .loop condition body => condition.tokens ++ body.tokens
  | .funDecl decl => decl.tokens
  | .ret keyword value => keyword :: Expr.tokensOf value
  | .classDecl name superclass methods =>
    name :: (Expr.tokensOf superclass ++ FunctionDecl.tokensAll methods)

def Stmt.tokensAll : List Stmt → List Token
  | [] => []
  | s :: ss => s.tokens ++ Stmt.tokensAll ss

def FunctionDecl.tokens : FunctionDecl → List Token
  | ⟨name, params, body⟩ => name :: (params ++ Stmt.tokensAll body)

def FunctionDecl.tokensAll : List FunctionDecl → List Token
  | [] => []
  | decl :: decls => decl.tokens ++ FunctionDecl.tokensAll decls

end

namespace Reading

/-- An account of what was read: numbers from `k` up to, but not with, `k'`, each at most once, and
tokens that are no more than those read. -/
structure Account (k : Nat) (ts : List Token) (k' : Nat) (numbers : List ExprId)
    (tokens : List Token) : Prop where
  le : k ≤ k'
  number : ∀ i, numbers.count i ≤ if k ≤ i ∧ i < k' then 1 else 0
  token : ∀ t, tokens.count t ≤ ts.count t

namespace Account

variable {k k₁ k' : Nat} {ts us : List Token} {numbers numbers' : List ExprId}
  {tokens tokens' : List Token}

lemma nil (k : Nat) : Account k [] k [] [] :=
  ⟨Nat.le_refl k, by simp, by simp⟩

lemma append (h : Account k ts k₁ numbers tokens) (h' : Account k₁ us k' numbers' tokens') :
    Account k (ts ++ us) k' (numbers ++ numbers') (tokens ++ tokens') := by
  refine ⟨Nat.le_trans h.le h'.le, fun i => ?_, fun t => ?_⟩
  · have hi := h.number i
    have hi' := h'.number i
    have := h.le
    have := h'.le
    rw [List.count_append]
    grind
  · rw [List.count_append, List.count_append]
    exact Nat.add_le_add (h.token t) (h'.token t)

/-- One more expression around what was read. -/
lemma node (h : Account k ts k' numbers tokens) : Account k ts (k' + 1) (k' :: numbers) tokens := by
  refine ⟨Nat.le_succ_of_le h.le, fun i => ?_, h.token⟩
  have hi := h.number i
  have := h.le
  rw [List.count_cons]
  grind

/-- A token that is read and kept. -/
lemma keep (h : Account k ts k' numbers tokens) (t : Token) :
    Account k (t :: ts) k' numbers (t :: tokens) := by
  refine ⟨h.le, h.number, fun u => ?_⟩
  have hu := h.token u
  rw [List.count_cons, List.count_cons]
  omega

/-- The order does not count, tokens may be skipped and parts dropped. -/
lemma adapt (h : Account k ts k' numbers tokens)
    (hnumbers : ∀ i, numbers'.count i ≤ numbers.count i)
    (htokens : ∀ t, tokens'.count t ≤ tokens.count t) (hread : ∀ t, ts.count t ≤ us.count t) :
    Account k us k' numbers' tokens' :=
  ⟨h.le, fun i => Nat.le_trans (hnumbers i) (h.number i),
    fun t => Nat.le_trans (htokens t) (Nat.le_trans (h.token t) (hread t))⟩

end Account

mutual

lemma Primary.account {k ts e k' ds} (h : Primary k ts e k' ds) :
    Account k ts k' e.numbers e.tokens := by
  match h with
  | @Primary.literal _ t _ _ =>
    exact ((Account.nil k).node).adapt (by simp [Expr.numbers]) (by simp [Expr.tokens]) (by simp)
  | @Primary.super _ t dot method _ _ _ =>
    refine ((((Account.nil k).keep method).keep t).node).adapt (by simp [Expr.numbers])
      (by simp [Expr.tokens]) fun u => ?_
    simp only [List.count_cons]
    omega
  | @Primary.this _ t _ =>
    exact (((Account.nil k).keep t).node).adapt (by simp [Expr.numbers]) (by simp [Expr.tokens])
      (by simp)
  | @Primary.var _ t _ =>
    exact (((Account.nil k).keep t).node).adapt (by simp [Expr.numbers]) (by simp [Expr.tokens])
      (by simp)
  | .grouping _ he _ =>
    refine he.account.node.adapt (by simp [Expr.numbers]) (by simp [Expr.tokens]) fun u => ?_
    simp only [List.count_append, List.count_cons]
    omega

lemma Call.account {k ts e k' ds} (h : Call k ts e k' ds) :
    Account k ts k' e.numbers e.tokens := by
  match h with
  | .primary h => exact h.account
  | @Call.call _ _ _ _ _ _ _ _ _ _ closing hcallee _ hargs _ =>
    refine ((hcallee.account.append hargs.account).node.keep closing).adapt
      (by simp [Expr.numbers]) (by simp [Expr.tokens]) fun u => ?_
    simp only [List.count_append, List.count_cons, List.count_nil]
    omega
  | @Call.get _ _ _ _ _ dot name hobject _ _ =>
    refine (hobject.account.node.keep name).adapt (by simp [Expr.numbers]) (by simp [Expr.tokens])
      fun u => ?_
    simp only [List.count_append, List.count_cons, List.count_nil]
    omega

lemma Arguments.account {k ts es k' ds} (h : Arguments k ts es k' ds) :
    Account k ts k' (Expr.numbersAll es) (Expr.tokensAll es) := by
  match h with
  | .none => exact .nil k
  | .some h => exact h.account

lemma Entries.account {count k ts es k' ds} (h : Entries count k ts es k' ds) :
    Account k ts k' (Expr.numbersAll es) (Expr.tokensAll es) := by
  match h with
  | .last he =>
    exact he.account.adapt (by simp [Expr.numbersAll]) (by simp [Expr.tokensAll]) (by simp)
  | .more he _ hes =>
    refine (he.account.append hes.account).adapt (by simp [Expr.numbersAll])
      (by simp [Expr.tokensAll]) fun u => ?_
    simp only [List.count_append, List.count_cons]
    omega

lemma Unary.account {k ts e k' ds} (h : Unary k ts e k' ds) :
    Account k ts k' e.numbers e.tokens := by
  match h with
  | .call h => exact h.account
  | @Unary.sign _ t _ _ _ _ _ _ he =>
    exact (he.account.node.keep t).adapt (by simp [Expr.numbers]) (by simp [Expr.tokens]) (by simp)

lemma Operation.account {ps k ts e k' ds} (h : Operation ps k ts e k' ds) :
    Account k ts k' e.numbers e.tokens := by
  match h with
  | .unary h => exact h.account
  | .operand h => exact h.account
  | @Operation.apply _ _ _ _ _ _ _ t op _ _ _ _ hleft _ hright =>
    refine ((hleft.account.append hright.account).node.keep t).adapt ?_ ?_ fun u => ?_
    · cases op <;> simp [Operator.apply, Expr.numbers]
    · cases op <;> simp [Operator.apply, Expr.tokens]
    · simp only [List.count_append, List.count_cons]
      omega

lemma Expression.account {k ts e k' ds} (h : Expression k ts e k' ds) :
    Account k ts k' e.numbers e.tokens := by
  match h with
  | .operation h => exact h.account
  | .assign htarget _ hvalue =>
    refine (htarget.account.append hvalue.account).node.adapt ?_ ?_ fun u => ?_
    · intro i
      simp only [Expr.numbers, List.count_append, List.count_cons]
      omega
    · simp [Expr.tokens]
    · simp only [List.count_append, List.count_cons]
      omega
  | .set htarget _ hvalue =>
    refine (htarget.account.append hvalue.account).node.adapt ?_ ?_ fun u => ?_
    · intro i
      simp only [Expr.numbers, List.count_append, List.count_cons]
      omega
    · simp [Expr.tokens]
    · simp only [List.count_append, List.count_cons]
      omega
  | .invalid htarget _ _ hvalue =>
    refine (htarget.account.append hvalue.account).adapt ?_ ?_ fun u => ?_
    · intro i
      simp only [List.count_append]
      omega
    · intro u
      simp only [List.count_append]
      omega
    · simp only [List.count_append, List.count_cons]
      omega

end

lemma Optional.account {k ts e k' ds} (h : Optional k ts e k' ds) :
    Account k ts k' (Expr.numbersOf e) (Expr.tokensOf e) := by
  cases h with
  | none => exact .nil k
  | some h => exact h.account

lemma Names.account {count ts names ds} (h : Names count ts names ds) (k : Nat) :
    Account k ts k [] names := by
  induction h with
  | @last _ t _ => exact (Account.nil k).keep t
  | @more _ t _ _ _ _ _ _ _ ih =>
    refine (ih.keep t).adapt (by simp) (by simp) fun u => ?_
    simp only [List.count_cons]
    omega

lemma Parameters.account {ts names ds} (h : Parameters ts names ds) (k : Nat) :
    Account k ts k [] names := by
  cases h with
  | none => exact .nil k
  | some h => exact h.account k

lemma Variable.account {k ts s k' ds} (h : Variable k ts s k' ds) :
    Account k ts k' s.numbers s.tokens := by
  cases h with
  | @plain name _ _ _ =>
    refine ((Account.nil k).keep name).adapt (by simp [Stmt.numbers, Expr.numbersOf])
      (by simp [Stmt.tokens, Expr.tokensOf]) fun u => ?_
    simp only [List.count_cons]
    omega
  | @initialized name _ _ _ _ _ _ _ _ he _ =>
    refine (he.account.keep name).adapt (by simp [Stmt.numbers, Expr.numbersOf])
      (by simp [Stmt.tokens, Expr.tokensOf]) fun u => ?_
    simp only [List.count_append, List.count_cons]
    omega

lemma Superclass.account {k ts e k'} (h : Superclass k ts e k') :
    Account k ts k' (Expr.numbersOf e) (Expr.tokensOf e) := by
  cases h with
  | none => exact .nil k
  | @some _ name _ _ =>
    refine (((Account.nil k).keep name).node).adapt (by simp [Expr.numbersOf, Expr.numbers])
      (by simp [Expr.tokensOf, Expr.tokens]) fun u => ?_
    simp only [List.count_cons]
    omega

lemma Initializer.account {k ts s k' ds} (h : Initializer k ts s k' ds) :
    Account k ts k' (Stmt.numbersAll s.toList) (Stmt.tokensAll s.toList) := by
  cases h with
  | none =>
    exact (Account.nil k).adapt (by simp [Stmt.numbersAll]) (by simp [Stmt.tokensAll]) (by simp)
  | varDecl _ h =>
    refine h.account.adapt (by simp [Stmt.numbersAll]) (by simp [Stmt.tokensAll]) fun u => ?_
    simp only [List.count_cons]
    omega
  | expression he _ =>
    refine he.account.adapt (by simp [Stmt.numbersAll, Stmt.numbers])
      (by simp [Stmt.tokensAll, Stmt.tokens]) fun u => ?_
    simp only [List.count_append]
    omega

lemma loopCondition_account {k ts k' numbers tokens} {condition : Option Expr}
    (h : Account k ts k' (Expr.numbersOf condition ++ numbers)
      (Expr.tokensOf condition ++ tokens)) :
    Account k ts (loopCondition k' condition).2
      ((loopCondition k' condition).1.numbers ++ numbers)
      ((loopCondition k' condition).1.tokens ++ tokens) := by
  cases condition with
  | none => exact h.node
  | some e => exact h

lemma numbers_loopBody (body : Stmt) (increment : Option Expr) :
    (loopBody body increment).numbers = body.numbers ++ Expr.numbersOf increment := by
  cases increment <;> simp [loopBody, Stmt.numbers, Stmt.numbersAll, Expr.numbersOf]

lemma tokens_loopBody (body : Stmt) (increment : Option Expr) :
    (loopBody body increment).tokens = body.tokens ++ Expr.tokensOf increment := by
  cases increment <;> simp [loopBody, Stmt.tokens, Stmt.tokensAll, Expr.tokensOf]

lemma numbers_loopBlock (loop : Stmt) (first : Option Stmt) :
    (loopBlock loop first).numbers = Stmt.numbersAll first.toList ++ loop.numbers := by
  cases first <;> simp [loopBlock, Stmt.numbers, Stmt.numbersAll]

lemma tokens_loopBlock (loop : Stmt) (first : Option Stmt) :
    (loopBlock loop first).tokens = Stmt.tokensAll first.toList ++ loop.tokens := by
  cases first <;> simp [loopBlock, Stmt.tokens, Stmt.tokensAll]

mutual

lemma Statement.account {dangling k ts s k' ds} (h : Statement dangling k ts s k' ds) :
    Account k ts k' s.numbers s.tokens := by
  match h with
  | .expression he _ =>
    refine he.account.adapt (by simp [Stmt.numbers]) (by simp [Stmt.tokens]) fun u => ?_
    simp only [List.count_append]
    omega
  | .print _ he _ =>
    refine he.account.adapt (by simp [Stmt.numbers]) (by simp [Stmt.tokens]) fun u => ?_
    simp only [List.count_append, List.count_cons]
    omega
  | @Statement.ret _ keyword _ _ _ _ _ _ hvalue _ =>
    refine (hvalue.account.keep keyword).adapt (by simp [Stmt.numbers]) (by simp [Stmt.tokens])
      fun u => ?_
    simp only [List.count_append, List.count_cons]
    omega
  | .block _ hbody _ =>
    refine hbody.account.adapt (by simp [Stmt.numbers]) (by simp [Stmt.tokens]) fun u => ?_
    simp only [List.count_append, List.count_cons]
    omega
  | .loop _ _ he _ hbody =>
    refine (he.account.append hbody.account).adapt (by simp [Stmt.numbers]) (by simp [Stmt.tokens])
      fun u => ?_
    simp only [List.count_append, List.count_cons]
    omega
  | .count _ _ hfirst hcondition _ hincrement _ hbody =>
    -- In the tree the body comes before the increment, and a missing condition is numbered last.
    have hparts := hcondition.account.append (hincrement.account.append hbody.account)
    have hloop := hfirst.account.append
      (loopCondition_account (hparts.adapt (fun _ => Nat.le_refl _) (fun _ => Nat.le_refl _)
        (fun _ => Nat.le_refl _)))
    refine hloop.adapt ?_ ?_ fun u => ?_
    · intro i
      simp only [numbers_loopBlock, Stmt.numbers, numbers_loopBody, List.count_append]
      omega
    · intro t
      simp only [tokens_loopBlock, Stmt.tokens, tokens_loopBody, List.count_append]
      omega
    · simp only [List.count_append, List.count_cons]
      omega
  | .ifThen _ _ he _ hthen =>
    refine (he.account.append hthen.account).adapt (by simp [Stmt.numbers]) (by simp [Stmt.tokens])
      fun u => ?_
    simp only [List.count_append, List.count_cons]
    omega
  | .ifElse _ _ he _ hthen _ helse =>
    refine (he.account.append (hthen.account.append helse.account)).adapt (by simp [Stmt.numbers])
      (by simp [Stmt.tokens]) fun u => ?_
    simp only [List.count_append, List.count_cons]
    omega

lemma Declaration.account {dangling k ts s k' ds} (h : Declaration dangling k ts s k' ds) :
    Account k ts k' s.numbers s.tokens := by
  match h with
  | @Declaration.classDecl _ _ name _ _ _ _ _ _ _ _ _ _ _ hparent _ hmethods _ =>
    refine ((hparent.account.append hmethods.account).keep name).adapt (by simp [Stmt.numbers])
      (by simp [Stmt.tokens]) fun u => ?_
    simp only [List.count_append, List.count_cons]
    omega
  | .funDecl _ hdecl =>
    refine hdecl.account.adapt (by simp [Stmt.numbers]) (by simp [Stmt.tokens]) fun u => ?_
    simp only [List.count_cons]
    omega
  | .varDecl _ h =>
    refine h.account.adapt (by simp) (by simp) fun u => ?_
    simp only [List.count_cons]
    omega
  | .statement h => exact h.account

lemma Declarations.account {k ts ss k' ds} (h : Declarations k ts ss k' ds) :
    Account k ts k' (Stmt.numbersAll ss) (Stmt.tokensAll ss) := by
  match h with
  | .nil => exact .nil k
  | .cons hs hss => exact hs.account.append hss.account

lemma Function.account {k ts decl k' ds} (h : Function k ts decl k' ds) :
    Account k ts k' decl.numbers decl.tokens := by
  match h with
  | @Function.mk _ name _ _ _ _ _ _ _ _ _ _ _ _ _ hparams _ _ hbody _ =>
    refine (((hparams.account k).append hbody.account).keep name).adapt
      (by simp [FunctionDecl.numbers]) (by simp [FunctionDecl.tokens]) fun u => ?_
    simp only [List.count_append, List.count_cons]
    omega

lemma Functions.account {k ts decls k' ds} (h : Functions k ts decls k' ds) :
    Account k ts k' (FunctionDecl.numbersAll decls) (FunctionDecl.tokensAll decls) := by
  match h with
  | .nil => exact .nil k
  | .cons hdecl hdecls => exact hdecl.account.append hdecls.account

end

namespace Account

variable {k k' : Nat} {ts : List Token} {numbers : List ExprId} {tokens : List Token}

lemma mem_numbers (h : Account k ts k' numbers tokens) {i : ExprId} (hi : i ∈ numbers) :
    k ≤ i ∧ i < k' := by
  have hcount := h.number i
  have hpos := List.count_pos_iff.mpr hi
  by_contra hne
  rw [if_neg hne] at hcount
  omega

lemma nodup_numbers (h : Account k ts k' numbers tokens) : numbers.Nodup := by
  rw [List.nodup_iff_count]
  intro i
  have hcount := h.number i
  split at hcount <;> omega

lemma mem_tokens (h : Account k ts k' numbers tokens) {t : Token} (ht : t ∈ tokens) : t ∈ ts := by
  rw [← List.count_pos_iff] at ht ⊢
  exact Nat.lt_of_lt_of_le ht (h.token t)

lemma nodup_tokens (h : Account k ts k' numbers tokens) (hts : ts.Nodup) : tokens.Nodup := by
  rw [List.nodup_iff_count] at hts ⊢
  exact fun t => Nat.le_trans (h.token t) (hts t)

end Account

end Reading
end GermanLox
