import GermanLox.Proofs.Run.Code
import GermanLox.Proofs.Scope.Occurrences
import GermanLox.Proofs.Scope.Walk
import Mathlib.Data.List.Forall2
import Mathlib.Logic.Equiv.Basic

/-!
# Two spellings of a program

Some local variables of one name, the chosen ones, are written with a new name on the other side,
and all else is as it was. The frame of a scope that declares a chosen variable exchanges the two
names; all other frames leave names alone. Then a name is found in the same scope on both sides, and
its other spelling is the one of that scope.
-/

namespace GermanLox

/-- The two spellings of each token, and what they are about. Expressions may have other numbers on
the other side, too. -/
structure Respelling where
  left : Token → Token
  right : Token → Token
  number : ExprId → ExprId
  /-- The numbers whose distances are compared. -/
  counts : ExprId → Prop
  /-- The variables that are renamed, by the tokens that declare them. -/
  chosen : Token → Prop
  old : String
  new : String

namespace Respelling

/-- The variable that an occurrence stands for is renamed. -/
def Renames (ρ : Respelling) (target : Option Token) : Prop :=
  ∃ d, target = some d ∧ ρ.chosen d

/-- An occurrence is written anew exactly if it stands for a chosen variable. -/
structure Covers (ρ : Respelling) (o : Token × Option Token) : Prop where
  left : (ρ.left o.1).lexeme = o.1.lexeme
  fresh : o.1.lexeme ≠ ρ.new
  renamed : ρ.Renames o.2 → (ρ.right o.1).lexeme = ρ.new
  kept : ¬ ρ.Renames o.2 → (ρ.right o.1).lexeme = o.1.lexeme

/-- What stands for no variable is spelled the same. -/
lemma Covers.same {ρ : Respelling} {t : Token} (h : ρ.Covers (t, none)) :
    (ρ.right t).lexeme = (ρ.left t).lexeme := by
  refine (h.kept ?_).trans h.left.symm
  rintro ⟨d, hd, -⟩
  cases hd

/-- The chosen variables have one name, and neither it nor the new one is a name that methods are
run with. -/
structure Proper (ρ : Respelling) : Prop where
  injective : Function.Injective ρ.number
  spelled : ∀ d, ρ.chosen d → d.lexeme = ρ.old
  ne : ρ.old ≠ ρ.new
  old_this : ρ.old ≠ thisName
  old_super : ρ.old ≠ superName
  new_this : ρ.new ≠ thisName
  new_super : ρ.new ≠ superName

/-- The names are exchanged. -/
def exchange (ρ : Respelling) : Label :=
  .names (Equiv.swap ρ.old ρ.new)

/-- Names are left alone. -/
def keep : Label :=
  .names (Equiv.refl String)

lemma Proper.exchange_ne_keep {ρ : Respelling} (h : ρ.Proper) : ρ.exchange ≠ keep := by
  intro heq
  have hswap : Equiv.swap ρ.old ρ.new = Equiv.refl String := Label.names.inj heq
  have hold := congrArg (· ρ.old) hswap
  simp only [Equiv.swap_apply_left, Equiv.refl_apply] at hold
  exact h.ne hold.symm

/-- The scopes of a walk. -/
inductive Knows (ρ : Respelling) : Layer → Prop
  | names {layer : Layer} (hlabel : layer.label = keep ∨ layer.label = ρ.exchange)
    (hthis : layer.names thisName = none) (hsuper : layer.names superName = none)
    (hnew : layer.names ρ.new = none) : Knows ρ layer
  | receiver : Knows ρ Layer.receiver
  | superclass : Knows ρ Layer.superclass

namespace Knows

variable {ρ : Respelling} {layer : Layer}

lemma names_new (h : ρ.Knows layer) (hρ : ρ.Proper) : layer.names ρ.new = none := by
  cases h with
  | names _ _ _ hnew => exact hnew
  | receiver => simp [Layer.receiver, Layer.enter, Layer.empty, hρ.new_this]
  | superclass => simp [Layer.superclass, Layer.enter, Layer.empty, hρ.new_super]

/-- A frame that does not exchange names leaves them alone. -/
lemma rename_eq (h : ρ.Knows layer) (hne : layer.label ≠ ρ.exchange) :
    layer.label.rename = Equiv.refl String := by
  cases h with
  | names hlabel =>
    rcases hlabel with hlabel | hlabel
    · rw [hlabel]
      rfl
    · exact absurd hlabel hne
  | receiver => rfl
  | superclass => rfl

/-- Names other than the two are left alone everywhere. -/
lemma rename_of_ne (h : ρ.Knows layer) {n : String} (hold : n ≠ ρ.old) (hnew : n ≠ ρ.new) :
    layer.label.rename n = n := by
  by_cases hlabel : layer.label = ρ.exchange
  · rw [hlabel]
    exact Equiv.swap_apply_of_ne_of_ne hold hnew
  · rw [h.rename_eq hlabel]
    rfl

end Knows

end Respelling

namespace Layers

/-- How far out the innermost scope with a name is. -/
def find (Γ : Layers) (n : String) : Option Nat :=
  Γ.findIdx? fun layer => (layer.names n).isSome

/-- The label of the innermost scope with a name. -/
def innermost (Γ : Layers) (n : String) : Option Label :=
  (List.find? (fun layer => (layer.names n).isSome) Γ).map Layer.label

lemma find_cons_of_some {layer : Layer} {Γ : Layers} {n : String}
    (h : (layer.names n).isSome) : Layers.find (layer :: Γ) n = some 0 := by
  simp [find, List.findIdx?_cons, h]

lemma find_cons_of_none {layer : Layer} {Γ : Layers} {n : String} (h : layer.names n = none) :
    Layers.find (layer :: Γ) n = (Γ.find n).map (· + 1) := by
  simp [find, List.findIdx?_cons, h]

lemma innermost_cons_of_some {layer : Layer} {Γ : Layers} {n : String}
    (h : (layer.names n).isSome) : innermost (layer :: Γ) n = some layer.label := by
  simp [innermost, h]

lemma innermost_cons_of_none {layer : Layer} {Γ : Layers} {n : String}
    (h : layer.names n = none) : innermost (layer :: Γ) n = Γ.innermost n := by
  simp [innermost, h]

/-- The scope that a name is found in. -/
lemma exists_of_find {Γ : Layers} {n : String} {d : Nat} (h : Γ.find n = some d) :
    ∃ layer, Γ[d]? = some layer ∧ (layer.names n).isSome ∧ Γ.innermost n = some layer.label := by
  induction Γ generalizing d with
  | nil => cases h
  | cons layer Γ ih =>
    by_cases hn : (layer.names n).isSome
    · rw [find_cons_of_some hn] at h
      cases h
      exact ⟨layer, rfl, hn, innermost_cons_of_some hn⟩
    · have hnone : layer.names n = none := by simpa using hn
      rw [find_cons_of_none hnone] at h
      obtain ⟨k, hk, rfl⟩ := Option.map_eq_some_iff.mp h
      obtain ⟨outer, houter, hsome, hinner⟩ := ih hk
      exact ⟨outer, houter, hsome, (innermost_cons_of_none hnone).trans hinner⟩

lemma innermost_of_find_none {Γ : Layers} {n : String} (h : Γ.find n = none) :
    Γ.innermost n = none := by
  rw [find, List.findIdx?_eq_none_iff] at h
  rw [innermost, Option.map_eq_none_iff, List.find?_eq_none]
  intro layer hlayer
  simp [h layer hlayer]

/-- Where `dies` is found is the nearest receiver. -/
lemma nearest_of_find {Γ : Layers} {d : Nat} (h : Γ.find thisName = some d) :
    ∀ j < d, Γ[j]? ≠ some Layer.receiver := by
  intro j hj hreceiver
  obtain ⟨_, _, hnone⟩ := List.findIdx?_eq_some_iff_getElem.mp h
  obtain ⟨_, hlayer⟩ := List.getElem?_eq_some_iff.mp hreceiver
  have hthis := hnone j hj
  rw [hlayer] at hthis
  simp [Layer.receiver, Layer.enter] at hthis

end Layers

/-- Scopes with the names of some layers, in one of the two spellings. -/
def Tracks (spelling : Layer → String → String) (Γ : Layers) (scopes : List Scope) : Prop :=
  List.Forall₂ (fun layer scope => ∀ n : String, scope[spelling layer n]? = layer.names n) Γ scopes

namespace Tracks

variable {spelling : Layer → String → String} {Γ : Layers} {scopes : List Scope}

/-- A name is found in the innermost scope that has it under its own spelling. -/
lemma findIdx? (h : Tracks spelling Γ scopes) {n' : String} (original : Layer → String)
    (horiginal : ∀ layer ∈ Γ, spelling layer (original layer) = n') :
    scopes.findIdx? (·.contains n') =
      List.findIdx? (fun layer => (layer.names (original layer)).isSome) Γ := by
  induction h with
  | nil => rfl
  | @cons layer scope Γ scopes hhead _ ih =>
    have hcontains : scope.contains n' = (layer.names (original layer)).isSome := by
      rw [← hhead, horiginal layer (List.mem_cons_self ..), Std.TreeMap.contains_eq_isSome_getElem?]
    rw [List.findIdx?_cons, List.findIdx?_cons, hcontains,
      ih fun layer hlayer => horiginal layer (List.mem_cons_of_mem _ hlayer)]

lemma isDeclared {r : Resolver} (h : Tracks spelling Γ r.scopes) {n n' : String}
    (hn : ∀ layer ∈ Γ.head?, n' = spelling layer n) :
    r.isDeclared n' = Γ.head?.any fun layer => (layer.names n).isSome := by
  unfold Resolver.isDeclared
  unfold Tracks at h
  generalize r.scopes = scopes at h
  cases h with
  | nil => rfl
  | @cons layer scope _ _ hhead _ =>
    simp only [List.head?_cons, Option.any_some]
    rw [Std.TreeMap.contains_eq_isSome_getElem?, hn layer rfl, hhead]

lemma isInitializing {r : Resolver} (h : Tracks spelling Γ r.scopes) {n n' : String}
    (hn : ∀ layer ∈ Γ.head?, n' = spelling layer n) :
    r.isInitializing n' = Γ.head?.any fun layer => layer.names n = some false := by
  unfold Resolver.isInitializing
  unfold Tracks at h
  generalize r.scopes = scopes at h
  cases h with
  | nil => rfl
  | @cons layer scope _ _ hhead _ =>
    simp only [List.head?_cons, Option.any_some]
    rw [hn layer rfl, hhead]

/-- A name enters the innermost scope in its own spelling. -/
lemma enter (h : Tracks spelling Γ scopes) {n n' : String} {ready : Bool}
    (hspelling : ∀ layer ∈ Γ.head?, Function.Injective (spelling layer) ∧ n' = spelling layer n ∧
      spelling (layer.enter n ready) = spelling layer) (r : Resolver) (hr : r.scopes = scopes) :
    Tracks spelling (Γ.enter n ready) (r.enter n' ready).scopes := by
  cases h with
  | nil =>
    rw [Resolver.enter, hr]
    simp only [hr]
    exact List.Forall₂.nil
  | @cons layer scope Γ scopes hhead hrest =>
    obtain ⟨hinj, rfl, hsame⟩ := hspelling layer rfl
    rw [Resolver.enter, hr]
    refine List.Forall₂.cons (fun m => ?_) hrest
    rw [hsame, Std.TreeMap.getElem?_insert]
    by_cases hm : m = n
    · subst hm
      simp [Layer.enter]
    · have hne : spelling layer n ≠ spelling layer m := fun heq => hm (hinj heq).symm
      simp [Layer.enter, hm, hne, hhead]

end Tracks

/-- With a name for each layer, a variable is found where it is: the innermost layer that has it
has the name too, and the layers without it do not. -/
lemma Layers.findIdx?_eq_find {Γ : Layers} {n : String} {spelled : Layer → String}
    (hfirst : ∀ layer ∈ Γ, Γ.innermost n = some layer.label → (layer.names n).isSome →
      (layer.names (spelled layer)).isSome)
    (hrest : ∀ layer ∈ Γ, layer.names n = none → layer.names (spelled layer) = none) :
    List.findIdx? (fun layer => (layer.names (spelled layer)).isSome) Γ = Γ.find n := by
  induction Γ with
  | nil => rfl
  | cons layer Γ ih =>
    have hmem := List.mem_cons_self (a := layer) (l := Γ)
    rw [List.findIdx?_cons]
    by_cases hn : (layer.names n).isSome
    · rw [if_pos (hfirst layer hmem (innermost_cons_of_some hn) hn), find_cons_of_some hn]
    · have hnone : layer.names n = none := by simpa using hn
      have hcons := innermost_cons_of_none (Γ := Γ) hnone
      rw [find_cons_of_none hnone, hrest layer hmem hnone, ih]
      · rfl
      · exact fun l hl hinner => hfirst l (List.mem_cons_of_mem _ hl) (hcons.trans hinner)
      · exact fun l hl => hrest l (List.mem_cons_of_mem _ hl)

namespace Respelling

variable {ρ : Respelling} {Γ : Layers} {env : Bindings}

/-- The new name is found where the old one is, if the variable is a chosen one. -/
lemma find_new (hρ : ρ.Proper) (hknown : ∀ layer ∈ Γ, ρ.Knows layer)
    (hinner : Γ.innermost ρ.old = some ρ.exchange) :
    List.findIdx? (fun layer => (layer.names (layer.label.rename.symm ρ.new)).isSome) Γ =
      Γ.find ρ.old := by
  have hnew : ρ.exchange.rename.symm ρ.new = ρ.old := by
    rw [exchange, Label.rename, Equiv.symm_swap, Equiv.swap_apply_right]
  refine Layers.findIdx?_eq_find ?_ ?_
  · intro layer _ hfirst hn
    rwa [Option.some.inj (hfirst.symm.trans hinner), hnew]
  · intro layer hlayer hnone
    by_cases hlabel : layer.label = ρ.exchange
    · rwa [hlabel, hnew]
    · rw [(hknown layer hlayer).rename_eq hlabel]
      exact (hknown layer hlayer).names_new hρ

/-- The old name is found where it was, if the variable is not a chosen one. -/
lemma find_old (hρ : ρ.Proper) (hknown : ∀ layer ∈ Γ, ρ.Knows layer)
    (hinner : Γ.innermost ρ.old ≠ some ρ.exchange) :
    List.findIdx? (fun layer => (layer.names (layer.label.rename.symm ρ.old)).isSome) Γ =
      Γ.find ρ.old := by
  have hold : ρ.exchange.rename.symm ρ.old = ρ.new := by
    rw [exchange, Label.rename, Equiv.symm_swap, Equiv.swap_apply_left]
  refine Layers.findIdx?_eq_find ?_ ?_
  · intro layer hlayer hfirst hn
    have hlabel : layer.label ≠ ρ.exchange := by
      intro heq
      rw [heq] at hfirst
      exact hinner hfirst
    rwa [(hknown layer hlayer).rename_eq hlabel]
  · intro layer hlayer hnone
    by_cases hlabel : layer.label = ρ.exchange
    · rw [hlabel, hold]
      exact (hknown layer hlayer).names_new hρ
    · rwa [(hknown layer hlayer).rename_eq hlabel]

/-- Other names are found where they were. -/
lemma find_other (hknown : ∀ layer ∈ Γ, ρ.Knows layer) {n : String} (hold : n ≠ ρ.old)
    (hnew : n ≠ ρ.new) :
    List.findIdx? (fun layer => (layer.names (layer.label.rename.symm n)).isSome) Γ =
      Γ.find n := by
  have hsymm : ∀ layer ∈ Γ, layer.label.rename.symm n = n := by
    intro layer hlayer
    rw [Equiv.symm_apply_eq, (hknown layer hlayer).rename_of_ne hold hnew]
  refine Layers.findIdx?_eq_find ?_ ?_
  · intro layer hlayer _ hn
    rwa [hsymm layer hlayer]
  · intro layer hlayer hnone
    rwa [hsymm layer hlayer]

/-- What the scopes of a walk have to do with what names stand for: the innermost scope with the old
name exchanges the names exactly if the name stands for a chosen variable. -/
structure Static (ρ : Respelling) (env : Bindings) (Γ : Layers) : Prop where
  known : ∀ layer ∈ Γ, ρ.Knows layer
  named : ∀ n d, env n = some d → d.lexeme = n
  innermost : ρ.Renames (env ρ.old) ↔ Γ.innermost ρ.old = some ρ.exchange
  ready : ∀ layer ∈ Γ.tail, ∀ n, layer.names n ≠ some false

namespace Static

variable {t : Token}

lemma eq_old (h : ρ.Static env Γ) (hρ : ρ.Proper) {n : String} (hn : ρ.Renames (env n)) :
    n = ρ.old := by
  obtain ⟨d, hd, hchosen⟩ := hn
  rw [← h.named n d hd, hρ.spelled d hchosen]

/-- A name is found in the same scope on both sides. -/
lemma find_eq (h : ρ.Static env Γ) (hρ : ρ.Proper) (ht : ρ.Covers (t, env t.lexeme)) :
    List.findIdx? (fun layer =>
        (layer.names (layer.label.rename.symm (ρ.right t).lexeme)).isSome) Γ =
      Γ.find t.lexeme := by
  by_cases hrenames : ρ.Renames (env t.lexeme)
  · have hold := h.eq_old hρ hrenames
    rw [ht.renamed hrenames, hold]
    rw [hold] at hrenames
    exact find_new hρ h.known (h.innermost.mp hrenames)
  · rw [ht.kept hrenames]
    by_cases hold : t.lexeme = ρ.old
    · rw [hold] at hrenames ⊢
      exact find_old hρ h.known fun hinner => hrenames (h.innermost.mpr hinner)
    · exact find_other h.known hold ht.fresh

/-- The other spelling of a name is the one of the scope it is found in. -/
lemma spelled (h : ρ.Static env Γ) (hρ : ρ.Proper) (ht : ρ.Covers (t, env t.lexeme)) {d : Nat}
    {layer : Layer} (hd : Γ.find t.lexeme = some d) (hlayer : Γ[d]? = some layer) :
    (ρ.right t).lexeme = layer.label.rename t.lexeme := by
  obtain ⟨layer', hlayer', -, hinner⟩ := Layers.exists_of_find hd
  obtain rfl : layer' = layer := Option.some.inj (hlayer'.symm.trans hlayer)
  have hknown := h.known layer' (List.mem_of_getElem? hlayer)
  by_cases hrenames : ρ.Renames (env t.lexeme)
  · have hold := h.eq_old hρ hrenames
    rw [hold] at hrenames hinner
    have hlabel := Option.some.inj (hinner.symm.trans (h.innermost.mp hrenames))
    rw [ht.renamed (by rwa [hold]), hold, hlabel, exchange, Label.rename, Equiv.swap_apply_left]
  · rw [ht.kept hrenames]
    by_cases hold : t.lexeme = ρ.old
    · rw [hold] at hrenames hinner
      rw [hknown.rename_eq fun heq => hrenames (h.innermost.mpr (hinner.trans (congrArg some heq)))]
      rfl
    · exact (hknown.rename_of_ne hold ht.fresh).symm

/-- A name that is not local is spelled the same. -/
lemma spelled_global (h : ρ.Static env Γ) (hρ : ρ.Proper) (ht : ρ.Covers (t, env t.lexeme))
    (hd : Γ.find t.lexeme = none) : (ρ.right t).lexeme = t.lexeme := by
  refine ht.kept fun hrenames => ?_
  have hold := h.eq_old hρ hrenames
  rw [hold] at hrenames hd
  have hinner := h.innermost.mp hrenames
  rw [Layers.innermost_of_find_none hd] at hinner
  cases hinner

end Static

end Respelling

end GermanLox
