import GermanLox.Proofs.Scope.Formed
import GermanLox.Proofs.Scope.Respelling

/-!
# Two walks at the same place

Walks over the two spellings of a program that are at the same place: their scopes have the same
names in the two spellings, they have recorded the same distances and found no fault. Every single
action of a walk takes them to the same place again.
-/

namespace GermanLox

/-- No initializer is open. -/
def Layers.Ready (Γ : Layers) : Prop :=
  ∀ layer ∈ Γ, ∀ n, layer.names n ≠ some false

/-- The class around a place and the scopes of its receiver and superclass. -/
def Placed : ClassContext → Layers → Prop
  | .outside, _ => True
  | .base, Γ => ∃ d, Γ.find thisName = some d ∧ Γ[d]? = some Layer.receiver
  | .derived, Γ => ∃ d, Γ.find thisName = some d ∧ Γ[d]? = some Layer.receiver ∧
    Γ.find superName = some (d + 1) ∧ Γ[d + 1]? = some Layer.superclass

namespace Placed

variable {context : ClassContext} {Γ : Layers}

lemma cons (h : Placed context Γ) {layer : Layer} (hthis : layer.names thisName = none)
    (hsuper : layer.names superName = none) : Placed context (layer :: Γ) := by
  cases context with
  | outside => trivial
  | base =>
    obtain ⟨d, hd, hlayer⟩ := h
    exact ⟨d + 1, by rw [Layers.find_cons_of_none hthis, hd]; rfl, hlayer⟩
  | derived =>
    obtain ⟨d, hd, hlayer, hd', hlayer'⟩ := h
    exact ⟨d + 1, by rw [Layers.find_cons_of_none hthis, hd]; rfl, hlayer,
      by rw [Layers.find_cons_of_none hsuper, hd']; rfl, hlayer'⟩

/-- The innermost scope does not count if it has neither name. -/
lemma of_cons {layer other : Layer} (h : Placed context (layer :: Γ))
    (hthis : layer.names thisName = none) (hsuper : layer.names superName = none)
    (hthis' : other.names thisName = none) (hsuper' : other.names superName = none) :
    Placed context (other :: Γ) := by
  cases context with
  | outside => trivial
  | base =>
    obtain ⟨d, hd, hlayer⟩ := h
    rw [Layers.find_cons_of_none hthis] at hd
    obtain ⟨k, hk, rfl⟩ := Option.map_eq_some_iff.mp hd
    exact ⟨k + 1, by rw [Layers.find_cons_of_none hthis', hk]; rfl, hlayer⟩
  | derived =>
    obtain ⟨d, hd, hlayer, hd', hlayer'⟩ := h
    rw [Layers.find_cons_of_none hthis] at hd
    obtain ⟨k, hk, rfl⟩ := Option.map_eq_some_iff.mp hd
    rw [Layers.find_cons_of_none hsuper] at hd'
    exact ⟨k + 1, by rw [Layers.find_cons_of_none hthis', hk]; rfl, hlayer,
      by rw [Layers.find_cons_of_none hsuper']; exact hd', hlayer'⟩

lemma receiver : Placed .base (Layer.receiver :: Γ) :=
  ⟨0, Layers.find_cons_of_some (by simp [Layer.receiver, Layer.enter]), rfl⟩

lemma superclass : Placed .derived (Layer.receiver :: Layer.superclass :: Γ) := by
  have hreceiver : Layer.receiver.names superName = none := by
    simp [Layer.receiver, Layer.enter, Layer.empty, superName, thisName]
  refine ⟨0, Layers.find_cons_of_some (by simp [Layer.receiver, Layer.enter]), rfl, ?_, rfl⟩
  rw [Layers.find_cons_of_none hreceiver,
    Layers.find_cons_of_some (by simp [Layer.superclass, Layer.enter])]
  rfl

end Placed

namespace Respelling

structure Matches (ρ : Respelling) (env : Bindings) (Γ : Layers) (r r' : Resolver) : Prop
    extends ρ.Static env Γ where
  left : Tracks (fun _ n => n) Γ r.scopes
  right : Tracks (fun layer n => layer.label.rename n) Γ r'.scopes
  clean : r.diagnostics = []
  clean_right : r'.diagnostics = []
  distances : ∀ i : ExprId, ρ.counts i → r'.distances[ρ.number i]? = r.distances[i]?
  context : r'.context = r.context

/-- A name that is declared in the innermost scope, with the variable that it is: it is a chosen one
exactly if it has the old name and the scope exchanges names. -/
def Hosts (ρ : Respelling) (Γ : Layers) (o : Token × Option Token) : Prop :=
  ∀ layer ∈ Γ.head?, (layer.label = keep ∨ layer.label = ρ.exchange) ∧
    (o.1.lexeme = ρ.old → (ρ.Renames o.2 ↔ layer.label = ρ.exchange))

variable {ρ : Respelling} {env : Bindings} {Γ : Layers} {r r' : Resolver} {t : Token}

namespace Matches

section References

lemma findIdx_left (h : ρ.Matches env Γ r r') (n : String) :
    r.scopes.findIdx? (·.contains n) = Γ.find n :=
  h.left.findIdx? (fun _ => n) fun _ _ => rfl

lemma findIdx_right (h : ρ.Matches env Γ r r') (n : String) :
    r'.scopes.findIdx? (·.contains n) =
      List.findIdx? (fun layer => (layer.names (layer.label.rename.symm n)).isSome) Γ :=
  h.right.findIdx? (fun layer => layer.label.rename.symm n) fun _ _ => Equiv.apply_symm_apply _ _

/-- Both sides record the distance of the scope that a name is found in. -/
lemma bindTo (h : ρ.Matches env Γ r r') (hρ : ρ.Proper) {n n' : String} {distance? : Option Nat}
    (i : ExprId)
    (hn : r.scopes.findIdx? (·.contains n) = distance?)
    (hn' : r'.scopes.findIdx? (·.contains n') = distance?) :
    ρ.Matches env Γ (r.bind i n) (r'.bind (ρ.number i) n') := by
  refine ⟨h.toStatic, by simpa using h.left, by simpa using h.right, by simpa using h.clean,
    by simpa using h.clean_right, fun j hj => ?_, by simpa using h.context⟩
  unfold Resolver.bind
  rw [hn, hn']
  cases distance? with
  | none => exact h.distances j hj
  | some d =>
    simp only [Std.TreeMap.getElem?_insert, h.distances j hj, Std.LawfulEqCmp.compare_eq_iff_eq,
      hρ.injective.eq_iff]

lemma bind (h : ρ.Matches env Γ r r') (hρ : ρ.Proper) (ht : ρ.Covers (t, env t.lexeme))
    (i : ExprId) :
    ρ.Matches env Γ (r.bind i (ρ.left t).lexeme) (r'.bind (ρ.number i) (ρ.right t).lexeme) := by
  refine h.bindTo hρ i ?_ ((h.findIdx_right _).trans (h.find_eq hρ ht))
  rw [ht.left]
  exact h.findIdx_left _

/-- Names that no variable has are found in the same scope, too. -/
lemma findIdx_right_of_ne (h : ρ.Matches env Γ r r') {n : String} (hold : n ≠ ρ.old)
    (hnew : n ≠ ρ.new) : r'.scopes.findIdx? (·.contains n) = Γ.find n := by
  rw [h.findIdx_right]
  exact find_other h.known hold hnew

/-- What is recorded for an expression that has no distance yet. -/
lemma entry (h : ρ.Matches env Γ r r') {i : ExprId} (n : String)
    (hfresh : r.distances[i]? = none) : (r.bind i n).distances[i]? = Γ.find n := by
  unfold Resolver.bind
  rw [h.findIdx_left]
  cases Γ.find n with
  | none => exact hfresh
  | some d => simp

lemma isInitializing_left (h : ρ.Matches env Γ r r') (n : String) :
    r.isInitializing n = Γ.head?.any fun layer => layer.names n = some false :=
  h.left.isInitializing fun _ _ => rfl

lemma isInitializing_right (h : ρ.Matches env Γ r r') (hρ : ρ.Proper)
    (ht : ρ.Covers (t, env t.lexeme)) :
    r'.isInitializing (ρ.right t).lexeme = r.isInitializing (ρ.left t).lexeme := by
  rw [h.isInitializing_left, ht.left]
  have hright := h.right
  have hfind := h.find_eq hρ ht
  have hspelled : ∀ d layer, Γ.find t.lexeme = some d → Γ[d]? = some layer →
      (ρ.right t).lexeme = layer.label.rename t.lexeme := fun _ _ => h.spelled hρ ht
  unfold Resolver.isInitializing
  revert hright hfind hspelled
  generalize r'.scopes = scopes
  clear h
  rintro (_ | @⟨layer, scope, Γ, scopes, hhead, -⟩) hfind hspelled
  · rfl
  · simp only [List.head?_cons, Option.any_some]
    have hscope : scope[(ρ.right t).lexeme]? =
        layer.names (layer.label.rename.symm (ρ.right t).lexeme) := by
      simpa using hhead (layer.label.rename.symm (ρ.right t).lexeme)
    rw [hscope]
    by_cases hn : (layer.names t.lexeme).isSome
    · rw [hspelled 0 layer (Layers.find_cons_of_some hn) rfl, Equiv.symm_apply_apply]
    · have hnone : layer.names t.lexeme = none := by simpa using hn
      rw [Layers.find_cons_of_none hnone, List.findIdx?_cons] at hfind
      split at hfind
      · cases hrest : Layers.find Γ t.lexeme <;> simp [hrest] at hfind
      · rename_i hother
        rw [hnone, Option.not_isSome_iff_eq_none.mp hother]

end References

end Matches

section Scopes

variable {o : Token × Option Token}

/-- The other spelling of a name that is declared is the one of its scope. -/
lemma Hosts.spelled (h : ρ.Hosts Γ o) (ho : ρ.Covers o) {layer : Layer} (hlayer : layer ∈ Γ.head?)
    (hρ : ρ.Proper) (hq : ∀ d, o.2 = some d → d = o.1) :
    (ρ.right o.1).lexeme = layer.label.rename o.1.lexeme := by
  obtain ⟨hlabel, hiff⟩ := h layer hlayer
  have hold : ρ.Renames o.2 → o.1.lexeme = ρ.old := by
    rintro ⟨d, hd, hchosen⟩
    rw [← hq d hd, hρ.spelled d hchosen]
  by_cases hrenames : ρ.Renames o.2
  · rw [ho.renamed hrenames, hold hrenames, (hiff (hold hrenames)).mp hrenames, exchange,
      Label.rename, Equiv.swap_apply_left]
  · rw [ho.kept hrenames]
    by_cases hname : o.1.lexeme = ρ.old
    · have hne : layer.label ≠ ρ.exchange := fun heq => hrenames ((hiff hname).mpr heq)
      rcases hlabel with hlabel | hlabel
      · rw [hlabel]
        rfl
      · exact absurd hlabel hne
    · rcases hlabel with hlabel | hlabel
      · rw [hlabel]
        rfl
      · rw [hlabel]
        exact (Equiv.swap_apply_of_ne_of_ne hname ho.fresh).symm

/-- Names that are declared here have the spelling of the innermost scope on the other side. -/
lemma Hosts.declaresAs (h : ρ.Hosts Γ o) (ho : ρ.Covers o) (hρ : ρ.Proper)
    (hq : ∀ d, o.2 = some d → d = o.1) (hglobal : Γ = [] → o.2 = none) :
    Γ.DeclaresAs (ρ.left o.1).lexeme (ρ.right o.1).lexeme := by
  rw [ho.left]
  cases Γ with
  | nil =>
    refine ho.kept ?_
    rintro ⟨d, hd, -⟩
    rw [hglobal rfl] at hd
    cases hd
  | cons layer Γ =>
    have hspelled := h.spelled ho (show layer ∈ (layer :: Γ).head? from rfl) hρ hq
    obtain ⟨hlabel | hlabel, -⟩ := h layer rfl
    · exact ⟨_, hlabel, by rw [hspelled, hlabel]; rfl⟩
    · exact ⟨_, hlabel, by rw [hspelled, hlabel]; rfl⟩

/-- A declared name goes into the innermost scope of both sides. -/
lemma Static.enter (h : ρ.Static env Γ) (hname : o.1.IsName) (hfresh : o.1.lexeme ≠ ρ.new)
    (hhost : ρ.Hosts Γ o) (hq : ∀ d, o.2 = some d → d = o.1) {inner : Bool}
    (hinner : inner = !Γ.isEmpty) (ready : Bool) :
    ρ.Static (env.enter inner o) (Γ.enter o.1.lexeme ready) := by
  subst hinner
  cases Γ with
  | nil => exact h
  | cons layer Γ =>
    obtain ⟨hlabel, hiff⟩ := hhost layer rfl
    have hlayer := h.known layer (List.mem_cons_self ..)
    refine ⟨?_, ?_, ?_, h.ready⟩
    · rintro other hother
      rcases List.mem_cons.mp hother with rfl | hother
      · cases hlayer with
        | names _ hthis hsuper hnew =>
          refine .names hlabel ?_ ?_ ?_
          · simp [Layer.enter, hname.ne_this.symm, hthis]
          · simp [Layer.enter, hname.ne_super.symm, hsuper]
          · simp [Layer.enter, Ne.symm hfresh, hnew]
        | receiver => rcases hlabel with hlabel | hlabel <;> cases hlabel
        | superclass => rcases hlabel with hlabel | hlabel <;> cases hlabel
      · exact h.known other (List.mem_cons_of_mem _ hother)
    · intro n d hd
      by_cases hn : n = o.1.lexeme
      · subst hn
        rw [hq d (by simpa [Bindings.enter] using hd)]
      · exact h.named n d (by simpa [Bindings.enter, hn] using hd)
    · by_cases hold : o.1.lexeme = ρ.old
      · have hsome : ((layer.enter o.1.lexeme ready).names ρ.old).isSome := by
          simp [Layer.enter, hold]
        have hbound : env.enter true o ρ.old = o.2 := by
          simp [Bindings.enter, hold]
        rw [Layers.enter, Layers.innermost_cons_of_some hsome, Option.some.injEq]
        exact (iff_of_eq (congrArg ρ.Renames hbound)).trans (hiff hold)
      · have hnames : (layer.enter o.1.lexeme ready).names ρ.old = layer.names ρ.old := by
          simp [Layer.enter, Ne.symm hold]
        have hbound : env.enter true o ρ.old = env ρ.old := by
          simp [Bindings.enter, Ne.symm hold]
        refine (iff_of_eq (congrArg ρ.Renames hbound)).trans (h.innermost.trans ?_)
        rw [Layers.enter]
        cases hsome : (layer.names ρ.old).isSome with
        | true =>
          rw [Layers.innermost_cons_of_some hsome,
            Layers.innermost_cons_of_some (by rw [hnames]; exact hsome)]
          rfl
        | false =>
          have hnone : layer.names ρ.old = none := by simpa using hsome
          rw [Layers.innermost_cons_of_none hnone,
            Layers.innermost_cons_of_none (hnames.trans hnone)]

namespace Matches

lemma enter (h : ρ.Matches env Γ r r') (hρ : ρ.Proper) (ho : ρ.Covers o) (hname : o.1.IsName)
    (hhost : ρ.Hosts Γ o) (hq : ∀ d, o.2 = some d → d = o.1) {inner : Bool}
    (hinner : inner = !Γ.isEmpty) (ready : Bool) :
    ρ.Matches (env.enter inner o) (Γ.enter o.1.lexeme ready)
      (r.enter (ρ.left o.1).lexeme ready) (r'.enter (ρ.right o.1).lexeme ready) := by
  refine ⟨h.toStatic.enter hname ho.fresh hhost hq hinner ready, ?_, ?_, by simpa using h.clean,
    by simpa using h.clean_right, by simpa using h.distances, by simpa using h.context⟩
  · rw [ho.left]
    exact h.left.enter (fun _ _ => ⟨Function.injective_id, rfl, rfl⟩) r rfl
  · refine h.right.enter (fun layer hlayer => ⟨?_, hhost.spelled ho hlayer hρ hq, rfl⟩) r' rfl
    exact layer.label.rename.injective

/-- A name that is declared without a fault on one side is so on the other. -/
lemma declare (h : ρ.Matches env Γ r r') (hρ : ρ.Proper) (ho : ρ.Covers o)
    (hhost : ρ.Hosts Γ o) (hq : ∀ d, o.2 = some d → d = o.1)
    (hclean : (r.declare (ρ.left o.1)).diagnostics = []) :
    r.declare (ρ.left o.1) = r.enter (ρ.left o.1).lexeme false ∧
      r'.declare (ρ.right o.1) = r'.enter (ρ.right o.1).lexeme false := by
  obtain ⟨-, hnew⟩ := Resolver.clean_of_declare hclean
  have hnew' : r'.isDeclared (ρ.right o.1).lexeme = false := by
    rw [h.right.isDeclared fun _ hlayer => hhost.spelled ho hlayer hρ hq]
    rwa [ho.left, h.left.isDeclared fun _ _ => rfl] at hnew
  exact ⟨by simp [Resolver.declare, hnew], by simp [Resolver.declare, hnew']⟩

lemma openScope (h : ρ.Matches env Γ r r') (hready : Γ.Ready) {label : Label}
    (hlabel : label = keep ∨ label = ρ.exchange) :
    ρ.Matches env (Layer.empty label :: Γ) r.openScope r'.openScope := by
  refine ⟨⟨?_, h.named, ?_, hready⟩, ?_, ?_, h.clean, h.clean_right, h.distances, h.context⟩
  · intro layer hlayer
    rcases List.mem_cons.mp hlayer with rfl | hlayer
    · exact .names hlabel rfl rfl rfl
    · exact h.known layer hlayer
  · rw [Layers.innermost_cons_of_none rfl]
    exact h.innermost
  · exact List.Forall₂.cons (fun n => by simp [Layer.empty]) h.left
  · exact List.Forall₂.cons (fun n => by simp [Layer.empty]) h.right

/-- Back outside, names stand for what they stood for before. -/
lemma closeScope {env₁ : Bindings} {layer : Layer} (h : ρ.Matches env₁ (layer :: Γ) r r')
    (hstatic : ρ.Static env Γ) : ρ.Matches env Γ r.closeScope r'.closeScope := by
  refine ⟨hstatic, ?_, ?_, h.clean, h.clean_right, h.distances, h.context⟩
  · have hleft := h.left
    unfold Resolver.closeScope
    unfold Tracks at hleft ⊢
    generalize r.scopes = scopes at hleft ⊢
    cases hleft with
    | cons _ hrest => exact hrest
  · have hright := h.right
    unfold Resolver.closeScope
    unfold Tracks at hright ⊢
    generalize r'.scopes = scopes at hright ⊢
    cases hright with
    | cons _ hrest => exact hrest

/-- A scope for a name that methods are run with. -/
lemma openFor (h : ρ.Matches env Γ r r') (hready : Γ.Ready) {label : Label} {n : String}
    (hlabel : label.rename = Equiv.refl String)
    (hknows : ρ.Knows ((Layer.empty label).enter n true)) (hne : n ≠ ρ.old) :
    ρ.Matches env ((Layer.empty label).enter n true :: Γ) (r.openScope.enter n true)
      (r'.openScope.enter n true) := by
  refine ⟨⟨?_, h.named, ?_, hready⟩, ?_, ?_, h.clean, h.clean_right, h.distances, h.context⟩
  · intro layer hlayer
    rcases List.mem_cons.mp hlayer with rfl | hlayer
    · exact hknows
    · exact h.known layer hlayer
  · rw [Layers.innermost_cons_of_none (by simp [Layer.enter, Layer.empty, Ne.symm hne])]
    exact h.innermost
  · refine List.Forall₂.cons (fun m => ?_) h.left
    by_cases hm : m = n
    · subst hm
      simp [Layer.enter]
    · simp [Layer.enter, Layer.empty, hm, Ne.symm hm]
  · refine List.Forall₂.cons (fun m => ?_) h.right
    simp only [Layer.enter, Layer.empty, hlabel, Equiv.refl_apply]
    by_cases hm : m = n
    · subst hm
      simp
    · simp [hm, Ne.symm hm]

lemma openReceiver (h : ρ.Matches env Γ r r') (hready : Γ.Ready) (hρ : ρ.Proper) :
    ρ.Matches env (Layer.receiver :: Γ) (r.openScope.enter thisName true)
      (r'.openScope.enter thisName true) :=
  h.openFor hready rfl .receiver (Ne.symm hρ.old_this)

lemma openSuperclass (h : ρ.Matches env Γ r r') (hready : Γ.Ready) (hρ : ρ.Proper) :
    ρ.Matches env (Layer.superclass :: Γ) (r.openScope.enter superName true)
      (r'.openScope.enter superName true) :=
  h.openFor hready rfl .superclass (Ne.symm hρ.old_super)

end Matches

end Scopes

end Respelling
end GermanLox
