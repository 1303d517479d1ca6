import GermanLox.Stmt.Parser
import Mathlib.Tactic.Common

/-!
# Comparing trees

Whether two trees are equal can be found out, so that what a list of tokens is read as can be
checked by evaluating it.
-/

namespace GermanLox

namespace Expr

mutual

def same : Expr → Expr → Bool
  | .literal i value, .literal j value' => i = j && value = value'
  | .grouping i a, .grouping j b => i = j && a.same b
  | .unary i op t a, .unary j op' t' b => i = j && op = op' && t = t' && a.same b
  | .binary i op t l r, .binary j op' t' l' r' =>
    i = j && op = op' && t = t' && l.same l' && r.same r'
  | .logical i op t l r, .logical j op' t' l' r' =>
    i = j && op = op' && t = t' && l.same l' && r.same r'
  | .var i t, .var j t' => i = j && t = t'
  | .assign i t a, .assign j t' b => i = j && t = t' && a.same b
  | .call i f t as, .call j g t' bs => i = j && f.same g && t = t' && sameAll as bs
  | .get i a t, .get j b t' => i = j && a.same b && t = t'
  | .set i a t v, .set j b t' w => i = j && a.same b && t = t' && v.same w
  | .this i t, .this j t' => i = j && t = t'
  | .super i t m, .super j t' m' => i = j && t = t' && m = m'
  | _, _ => false

def sameAll : List Expr → List Expr → Bool
  | [], [] => true
  | a :: as, b :: bs => a.same b && sameAll as bs
  | _, _ => false

end

lemma eq_of_same_or_sameAll : (∀ a b : Expr, a.same b = true → a = b) ∧
    ∀ as bs : List Expr, sameAll as bs = true → as = bs := by
  apply same.mutual_induct
  all_goals
    intros
    simp_all [same, sameAll]

mutual

lemma same_refl (a : Expr) : a.same a = true := by
  cases a with
  | literal i value => simp [same]
  | grouping i a => simp [same, same_refl a]
  | unary i op t a => simp [same, same_refl a]
  | binary i op t l r => simp [same, same_refl l, same_refl r]
  | logical i op t l r => simp [same, same_refl l, same_refl r]
  | var i t => simp [same]
  | assign i t a => simp [same, same_refl a]
  | call i f t as => simp [same, same_refl f, sameAll_refl as]
  | get i a t => simp [same, same_refl a]
  | set i a t v => simp [same, same_refl a, same_refl v]
  | this i t => simp [same]
  | super i t m => simp [same]

lemma sameAll_refl (as : List Expr) : sameAll as as = true := by
  cases as with
  | nil => rfl
  | cons a as => simp [sameAll, same_refl a, sameAll_refl as]

end

lemma same_iff {a b : Expr} : a.same b = true ↔ a = b := by
  constructor
  · exact eq_of_same_or_sameAll.1 a b
  · rintro rfl
    exact same_refl a

instance : DecidableEq Expr :=
  fun _ _ => decidable_of_iff _ same_iff

end Expr

namespace Stmt

mutual

def same : Stmt → Stmt → Bool
  | .expression a, .expression b => a = b
  | .print a, .print b => a = b
  | .varDecl t a, .varDecl t' b => t = t' && a = b
  | .block ss, .block ss' => sameAll ss ss'
  | .ifElse a s o, .ifElse b s' o' => a = b && s.same s' && sameOption o o'
  | .loop a s, .loop b s' => a = b && s.same s'
  | .funDecl d, .funDecl d' => sameFunction d d'
  | .ret t a, .ret t' b => t = t' && a = b
  | .classDecl t a ds, .classDecl t' b ds' => t = t' && a = b && sameFunctions ds ds'
  | _, _ => false
termination_by structural s => s

def sameAll : List Stmt → List Stmt → Bool
  | [], [] => true
  | s :: ss, s' :: ss' => s.same s' && sameAll ss ss'
  | _, _ => false
termination_by structural ss => ss

def sameOption : Option Stmt → Option Stmt → Bool
  | none, none => true
  | some s, some s' => s.same s'
  | _, _ => false
termination_by structural o => o

def sameFunction : FunctionDecl → FunctionDecl → Bool
  | ⟨t, params, ss⟩, ⟨t', params', ss'⟩ => t = t' && params = params' && sameAll ss ss'
termination_by structural d => d

def sameFunctions : List FunctionDecl → List FunctionDecl → Bool
  | [], [] => true
  | d :: ds, d' :: ds' => sameFunction d d' && sameFunctions ds ds'
  | _, _ => false
termination_by structural ds => ds

end

lemma eq_of_same_or_sameFunctions : (∀ s s' : Stmt, s.same s' = true → s = s') ∧
    (∀ ds ds' : List FunctionDecl, sameFunctions ds ds' = true → ds = ds') ∧
    (∀ d d' : FunctionDecl, sameFunction d d' = true → d = d') ∧
    (∀ ss ss' : List Stmt, sameAll ss ss' = true → ss = ss') ∧
    ∀ o o' : Option Stmt, sameOption o o' = true → o = o' := by
  apply same.mutual_induct
  all_goals
    intros
    simp_all [same, sameAll, sameOption, sameFunction, sameFunctions]

mutual

lemma same_refl (s : Stmt) : s.same s = true := by
  cases s with
  | expression e => simp [same]
  | print e => simp [same]
  | varDecl t e => simp [same]
  | block ss => simp [same, sameAll_refl ss]
  | ifElse e s o => simp [same, same_refl s, sameOption_refl o]
  | loop e s => simp [same, same_refl s]
  | funDecl d => simp [same, sameFunction_refl d]
  | ret t e => simp [same]
  | classDecl t e ds => simp [same, sameFunctions_refl ds]

lemma sameAll_refl (ss : List Stmt) : sameAll ss ss = true := by
  cases ss with
  | nil => rfl
  | cons s ss => simp [sameAll, same_refl s, sameAll_refl ss]

lemma sameOption_refl (o : Option Stmt) : sameOption o o = true := by
  cases o with
  | none => rfl
  | some s => simp [sameOption, same_refl s]

lemma sameFunction_refl (d : FunctionDecl) : sameFunction d d = true := by
  cases d with
  | mk t params ss => simp [sameFunction, sameAll_refl ss]

lemma sameFunctions_refl (ds : List FunctionDecl) : sameFunctions ds ds = true := by
  cases ds with
  | nil => rfl
  | cons d ds => simp [sameFunctions, sameFunction_refl d, sameFunctions_refl ds]

end

lemma same_iff {s s' : Stmt} : s.same s' = true ↔ s = s' := by
  constructor
  · exact eq_of_same_or_sameFunctions.1 s s'
  · rintro rfl
    exact same_refl s

instance : DecidableEq Stmt :=
  fun _ _ => decidable_of_iff _ same_iff

end Stmt

instance decidableEqExcept {ε α : Type} [DecidableEq ε] [DecidableEq α] :
    DecidableEq (Except ε α)
  | .ok a, .ok b => decidable_of_iff (a = b) ⟨congrArg Except.ok, Except.ok.inj⟩
  | .error e, .error e' => decidable_of_iff (e = e') ⟨congrArg Except.error, Except.error.inj⟩
  | .ok _, .error _ => .isFalse (by intro h; cases h)
  | .error _, .ok _ => .isFalse (by intro h; cases h)

deriving instance DecidableEq for Parsed

end GermanLox
