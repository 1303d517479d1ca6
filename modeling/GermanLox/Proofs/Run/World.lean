import GermanLox.Machine
import GermanLox.Proofs.Run.Code
import Mathlib.Data.List.Forall2

/-!
# Stores alike

Two stores that stand for the same state of two runs. Frames and instances have the same places; the
bindings of a frame are alike under the label of the frame. A closure is alike to another if their
functions are, in scopes that line up with the frames outward of the closure's own: frame by frame
the labels agree and every ready name is bound.

A store only grows, and what lines up once lines up ever after.
-/

lemma Option.Rel.mono {α β : Type} {R R' : α → β → Prop} {a : Option α} {b : Option β}
    (h : Option.Rel R a b) (himp : ∀ a b, R a b → R' a b) : Option.Rel R' a b := by
  cases h with
  | some h => exact .some (himp _ _ h)
  | none => exact .none

lemma Option.Rel.none_or_some {α β : Type} {R : α → β → Prop} {a : Option α} {b : Option β}
    (h : Option.Rel R a b) : a = .none ∧ b = .none ∨ ∃ x y, a = .some x ∧ b = .some y ∧ R x y := by
  cases h with
  | some h => exact .inr ⟨_, _, rfl, rfl, h⟩
  | none => exact .inl ⟨rfl, rfl⟩

namespace GermanLox

/-- The label of every frame. -/
abbrev Labels := FrameId → Label

/-- The frames from a frame outward line up with scopes: each has the label of its scope and binds
the names that are ready, and the last one is the global frame. -/
def Aligned (w : Labels) (s : Store) : FrameId → Layers → Prop
  | f, [] => f = Store.globals
  | f, layer :: Γ => f < s.frames.size ∧ w f = layer.label ∧
    (∀ n, layer.names n = some true → (s.local? f n).isSome) ∧
    ∃ g, s.enclosing? f = some g ∧ Aligned w s g Γ

/-- A later store: frames stay where they are and keep their labels, links and names. -/
structure Grows (w : Labels) (s : Store) (w₁ : Labels) (s₁ : Store) : Prop where
  size : s.frames.size ≤ s₁.frames.size
  label : ∀ f < s.frames.size, w₁ f = w f
  link : ∀ f < s.frames.size, s₁.enclosing? f = s.enclosing? f
  bound : ∀ f n, (s.local? f n).isSome → (s₁.local? f n).isSome

namespace Grows

variable {w w₁ w₂ : Labels} {s s₁ s₂ : Store}

lemma refl (w : Labels) (s : Store) : Grows w s w s where
  size := Nat.le_refl _
  label := fun _ _ => rfl
  link := fun _ _ => rfl
  bound := fun _ _ h => h

lemma trans (h : Grows w s w₁ s₁) (h₁ : Grows w₁ s₁ w₂ s₂) : Grows w s w₂ s₂ where
  size := Nat.le_trans h.size h₁.size
  label := fun f hf => (h₁.label f (Nat.lt_of_lt_of_le hf h.size)).trans (h.label f hf)
  link := fun f hf => (h₁.link f (Nat.lt_of_lt_of_le hf h.size)).trans (h.link f hf)
  bound := fun f n hn => h₁.bound f n (h.bound f n hn)

end Grows

lemma Aligned.grow {w w₁ : Labels} {s s₁ : Store} {f : FrameId} {Γ : Layers}
    (h : Aligned w s f Γ) (hgrow : Grows w s w₁ s₁) : Aligned w₁ s₁ f Γ := by
  induction Γ generalizing f with
  | nil => exact h
  | cons layer Γ ih =>
    obtain ⟨hf, hlabel, hbound, g, hlink, hg⟩ := h
    refine ⟨Nat.lt_of_lt_of_le hf hgrow.size, (hgrow.label f hf).trans hlabel, ?_, g, ?_, ih hg⟩
    · exact fun n hn => hgrow.bound f n (hbound n hn)
    · rw [hgrow.link f hf, hlink]

/-- What is outward of a frame lines up with what is outward of its scope. -/
lemma Aligned.ancestor {w : Labels} {s : Store} {f : FrameId} {Γ : Layers} {layer : Layer}
    {distance : Nat} (h : Aligned w s f Γ) (hlayer : Γ[distance]? = some layer) :
    ∃ g, s.ancestor? f distance = some g ∧ Aligned w s g (Γ.drop distance) := by
  induction distance generalizing f Γ with
  | zero => exact ⟨f, rfl, h⟩
  | succ distance ih =>
    cases Γ with
    | nil => simp at hlayer
    | cons outer Γ =>
      obtain ⟨-, -, -, g, hlink, hg⟩ := h
      obtain ⟨a, ha, halign⟩ := ih hg (by simpa using hlayer)
      exact ⟨a, by rw [Store.ancestor?, hlink]; exact ha, halign⟩

/-- The frame that a scope lines up with. -/
lemma Aligned.frame {w : Labels} {s : Store} {f : FrameId} {Γ : Layers} {layer : Layer}
    {distance : Nat} (h : Aligned w s f Γ) (hlayer : Γ[distance]? = some layer) :
    ∃ g, s.ancestor? f distance = some g ∧ g < s.frames.size ∧ w g = layer.label ∧
      (∀ n, layer.names n = some true → (s.local? g n).isSome) ∧ ∃ o, s.enclosing? g = some o := by
  obtain ⟨g, hg, halign⟩ := h.ancestor hlayer
  obtain ⟨hd, rfl⟩ := List.getElem?_eq_some_iff.mp hlayer
  rw [List.drop_eq_getElem_cons hd] at halign
  obtain ⟨hlt, hlabel, hbound, o, ho, -⟩ := halign
  exact ⟨g, hg, hlt, hlabel, hbound, o, ho⟩

/-- What is known of two programs is known of two runs. -/
structure Setting.Fits (σ E : Setting) : Prop where
  tokens : ∀ t t', σ.tokens t t' → E.tokens t t'
  entry : ∀ i i' d, σ.entry i i' d → E.entry i i' d
  own : ∀ i, σ.own i → E.own i

lemma Setting.Fits.refl (σ : Setting) : σ.Fits σ where
  tokens := fun _ _ ht => ht
  entry := fun _ _ _ hd => hd
  own := fun _ hi => hi

lemma Setting.Fits.trans {σ E E₁ : Setting} (h : σ.Fits E) (h₁ : E.Fits E₁) : σ.Fits E₁ where
  tokens := fun t t' ht => h₁.tokens t t' (h.tokens t t' ht)
  entry := fun i i' d hd => h₁.entry i i' d (h.entry i i' d hd)
  own := fun i hi => h₁.own i (h.own i hi)

/-- Functions alike that are closed in the same frame. -/
structure ClosureLike (E : Setting) (w : Labels) (s : Store) (inner : List Layer)
    (c c' : Closure) : Prop where
  identity : c'.identity = c.identity
  frame : c'.frame = c.frame
  isInitializer : c'.isInitializer = c.isInitializer
  code : ∃ σ Γ, σ.Fits E ∧ Aligned w s c.frame Γ ∧ FunctionLike σ (inner ++ Γ) c.decl c'.decl

/-- Methods that still wait for a receiver. -/
abbrev MethodLike (E : Setting) (w : Labels) (s : Store) (c c' : Closure) : Prop :=
  ClosureLike E w s [Layer.receiver] c c'

/-- Functions that can be called. An initializer is closed in a frame of its receiver. -/
structure FunctionValueLike (E : Setting) (w : Labels) (s : Store) (c c' : Closure) : Prop
    extends ClosureLike E w s [] c c' where
  receiver : c.isInitializer → c.frame < s.frames.size ∧ w c.frame = .receiver

structure DefinitionLike (E : Setting) (w : Labels) (s : Store) (d d' : ClassDefinition) :
    Prop where
  identity : d'.identity = d.identity
  name : d'.name = d.name
  methods : ∀ n : String, Option.Rel (MethodLike E w s) d.methods[n]? d'.methods[n]?

/-- Classes alike with all they inherit from. -/
def ClassLike (E : Setting) (w : Labels) (s : Store) (c c' : Class) : Prop :=
  List.Forall₂ (DefinitionLike E w s) c.lineage c'.lineage

inductive ValueLike (E : Setting) (w : Labels) (s : Store) : Value → Value → Prop
  | nil : ValueLike E w s .nil .nil
  | bool {b} : ValueLike E w s (.bool b) (.bool b)
  | number {x} : ValueLike E w s (.number x) (.number x)
  | string {text} : ValueLike E w s (.string text) (.string text)
  | closure {c c'} (h : FunctionValueLike E w s c c') : ValueLike E w s (.closure c) (.closure c')
  | builtin {b} : ValueLike E w s (.builtin b) (.builtin b)
  | ofClass {c c'} (h : ClassLike E w s c c') : ValueLike E w s (.ofClass c) (.ofClass c')
  | ofInstance {i} : ValueLike E w s (.ofInstance i) (.ofInstance i)

structure InstanceLike (E : Setting) (w : Labels) (s : Store) (o o' : Instance) : Prop where
  ofClass : ClassLike E w s o.ofClass o'.ofClass
  fields : ∀ n : String, Option.Rel (ValueLike E w s) o.fields[n]? o'.fields[n]?

structure StoreLike (E : Setting) (w : Labels) (s s' : Store) : Prop where
  size : s'.frames.size = s.frames.size
  globals : Store.globals < s.frames.size
  label : w Store.globals = .names (Equiv.refl String)
  outermost : s.enclosing? Store.globals = none
  link : ∀ f, s'.enclosing? f = s.enclosing? f
  binding : ∀ f n, Option.Rel (ValueLike E w s) (s.local? f n) (s'.local? f ((w f).rename n))
  receiver : ∀ f v, w f = .receiver → s.local? f thisName = some v → ∃ i, v = .ofInstance i
  superclass : ∀ f v, w f = .superclass → s.local? f superName = some v → ∃ c, v = .ofClass c
  instances : ∀ i : InstanceId, Option.Rel (InstanceLike E w s) s.instances[i]? s'.instances[i]?

section Growth

variable {E : Setting} {w w₁ : Labels} {s s₁ : Store}

lemma ClosureLike.grow {inner : List Layer} {c c' : Closure} (h : ClosureLike E w s inner c c')
    (hgrow : Grows w s w₁ s₁) : ClosureLike E w₁ s₁ inner c c' := by
  obtain ⟨σ, Γ, hfits, halign, hcode⟩ := h.code
  exact ⟨h.identity, h.frame, h.isInitializer, σ, Γ, hfits, halign.grow hgrow, hcode⟩

lemma FunctionValueLike.grow {c c' : Closure} (h : FunctionValueLike E w s c c')
    (hgrow : Grows w s w₁ s₁) : FunctionValueLike E w₁ s₁ c c' := by
  refine ⟨h.toClosureLike.grow hgrow, fun hinit => ?_⟩
  obtain ⟨hlt, hlabel⟩ := h.receiver hinit
  exact ⟨Nat.lt_of_lt_of_le hlt hgrow.size, (hgrow.label _ hlt).trans hlabel⟩

lemma DefinitionLike.grow {d d' : ClassDefinition} (h : DefinitionLike E w s d d')
    (hgrow : Grows w s w₁ s₁) : DefinitionLike E w₁ s₁ d d' :=
  ⟨h.identity, h.name, fun n => (h.methods n).mono fun _ _ hm => hm.grow hgrow⟩

lemma ClassLike.grow {c c' : Class} (h : ClassLike E w s c c') (hgrow : Grows w s w₁ s₁) :
    ClassLike E w₁ s₁ c c' :=
  h.imp fun _ _ hd => hd.grow hgrow

lemma ValueLike.grow {v v' : Value} (h : ValueLike E w s v v') (hgrow : Grows w s w₁ s₁) :
    ValueLike E w₁ s₁ v v' := by
  cases h with
  | nil => exact .nil
  | bool => exact .bool
  | number => exact .number
  | string => exact .string
  | closure h => exact .closure (h.grow hgrow)
  | builtin => exact .builtin
  | ofClass h => exact .ofClass (h.grow hgrow)
  | ofInstance => exact .ofInstance

lemma InstanceLike.grow {o o' : Instance} (h : InstanceLike E w s o o')
    (hgrow : Grows w s w₁ s₁) : InstanceLike E w₁ s₁ o o' :=
  ⟨h.ofClass.grow hgrow, fun n => (h.fields n).mono fun _ _ hv => hv.grow hgrow⟩

end Growth

section Widening

variable {E E₁ : Setting} {w : Labels} {s s' : Store}

lemma ClosureLike.widen {inner : List Layer} {c c' : Closure} (h : ClosureLike E w s inner c c')
    (hE : E.Fits E₁) : ClosureLike E₁ w s inner c c' := by
  obtain ⟨σ, Γ, hfits, halign, hcode⟩ := h.code
  exact ⟨h.identity, h.frame, h.isInitializer, σ, Γ, hfits.trans hE, halign, hcode⟩

lemma ClassLike.widen {c c' : Class} (h : ClassLike E w s c c') (hE : E.Fits E₁) :
    ClassLike E₁ w s c c' :=
  h.imp fun _ _ hd => ⟨hd.identity, hd.name, fun n => (hd.methods n).mono fun _ _ hm => hm.widen hE⟩

lemma ValueLike.widen {v v' : Value} (h : ValueLike E w s v v') (hE : E.Fits E₁) :
    ValueLike E₁ w s v v' := by
  cases h with
  | nil => exact .nil
  | bool => exact .bool
  | number => exact .number
  | string => exact .string
  | closure h => exact .closure ⟨h.toClosureLike.widen hE, h.receiver⟩
  | builtin => exact .builtin
  | ofClass h => exact .ofClass (h.widen hE)
  | ofInstance => exact .ofInstance

/-- With more programs known, stores are still alike. -/
lemma StoreLike.widen (h : StoreLike E w s s') (hE : E.Fits E₁) : StoreLike E₁ w s s' where
  size := h.size
  globals := h.globals
  label := h.label
  outermost := h.outermost
  link := h.link
  binding := fun f n => (h.binding f n).mono fun _ _ hv => hv.widen hE
  receiver := h.receiver
  superclass := h.superclass
  instances := fun i => (h.instances i).mono fun _ _ ho =>
    ⟨ho.ofClass.widen hE, fun n => (ho.fields n).mono fun _ _ hv => hv.widen hE⟩

end Widening

lemma Store.isSome_local?_define {s : Store} {g : FrameId} {m : String}
    (h : (s.local? g m).isSome) (f : FrameId) (n : String) (v : Value) :
    ((s.define f n v).local? g m).isSome := by
  by_cases hf : f < s.frames.size
  · rw [local?_define s f n v g m hf]
    split
    · rfl
    · exact h
  · have hfg : f ≠ g := by
      rintro rfl
      exact hf (lt_size_of_local? h)
    simpa [Store.local?, Store.define, Array.getElem?_modify, hfg] using h

lemma grows_define (w : Labels) (s : Store) (f : FrameId) (n : String) (v : Value) :
    Grows w s w (s.define f n v) where
  size := by simp [Store.define]
  label := fun _ _ => rfl
  link := fun g _ => Store.enclosing?_define s f n v g
  bound := fun _ _ hm => Store.isSome_local?_define hm f n v

/-- A new frame gets a label; all others keep theirs. -/
lemma grows_newFrame (w : Labels) (s : Store) (outer : Option FrameId) (label : Label) :
    Grows w s (Function.update w s.frames.size label) (s.newFrame outer).2 where
  size := by simp [Store.newFrame]
  label := fun f hf => Function.update_of_ne (Nat.ne_of_lt hf) label w
  link := fun f hf => by rw [Store.enclosing?_newFrame, if_neg (Nat.ne_of_lt hf)]
  bound := fun f n hn => by rwa [Store.local?_newFrame]

/-- Whatever happens to instances, the frames stay. -/
lemma grows_instances (w : Labels) (s : Store) (instances : Array Instance) :
    Grows w s w { s with instances } :=
  ⟨Nat.le_refl _, fun _ _ => rfl, fun _ _ => rfl, fun _ _ h => h⟩

/-- From an outermost frame only its own variables are found. -/
lemma Store.frameOf?_globals {s : Store} (h : s.enclosing? globals = none) (n : String) :
    s.frameOf? globals n = if (s.local? globals n).isSome then some globals else none := by
  rw [frameOf?, frameWithin?, h]
  rfl

lemma Store.get?_globals {s : Store} (h : s.enclosing? globals = none) (n : String) :
    s.get? globals n = s.local? globals n := by
  rw [get?, frameOf?_globals h]
  cases hn : s.local? globals n with
  | none => rfl
  | some v => exact hn

namespace StoreLike

variable {E : Setting} {w : Labels} {s s' : Store}

/-- Setting a variable on both sides, under its two spellings. A function may need its own name to
be set, so that the values are compared after it is. -/
lemma define (h : StoreLike E w s s') {f : FrameId} (hf : f < s.frames.size) {n : String}
    {v v' : Value} (hv : ValueLike E w (s.define f n v) v v')
    (hthis : w f = .receiver → n = thisName → ∃ i, v = .ofInstance i)
    (hsuper : w f = .superclass → n = superName → ∃ c, v = .ofClass c) :
    StoreLike E w (s.define f n v) (s'.define f ((w f).rename n) v') := by
  have hgrow := grows_define w s f n v
  have hf' : f < s'.frames.size := by rwa [h.size]
  refine ⟨?_, ?_, h.label, ?_, ?_, ?_, ?_, ?_, ?_⟩
  · simpa [Store.define] using h.size
  · simpa [Store.define] using h.globals
  · rw [Store.enclosing?_define, h.outermost]
  · intro g
    rw [Store.enclosing?_define, Store.enclosing?_define, h.link]
  · intro g m
    rw [Store.local?_define _ _ _ _ _ _ hf, Store.local?_define _ _ _ _ _ _ hf']
    by_cases hfg : f = g
    · subst hfg
      by_cases hnm : n = m
      · subst hnm
        simpa using Option.Rel.some hv
      · have hne : ¬ (w f).rename n = (w f).rename m := fun heq => hnm ((w f).rename.injective heq)
        simpa [hnm, hne] using (h.binding f m).mono fun _ _ hb => hb.grow hgrow
    · simpa [hfg] using (h.binding g m).mono fun _ _ hb => hb.grow hgrow
  · intro g u hg hu
    rcases Store.local?_define_eq_some hf hu with ⟨rfl, rfl, rfl⟩ | hu
    · exact hthis hg rfl
    · exact h.receiver g u hg hu
  · intro g u hg hu
    rcases Store.local?_define_eq_some hf hu with ⟨rfl, rfl, rfl⟩ | hu
    · exact hsuper hg rfl
    · exact h.superclass g u hg hu
  · exact fun i => (h.instances i).mono fun _ _ ho => ho.grow hgrow

/-- A new empty frame on both sides. -/
lemma newFrame (h : StoreLike E w s s') (outer : FrameId) (label : Label) :
    StoreLike E (Function.update w s.frames.size label) (s.newFrame (some outer)).2
      (s'.newFrame (some outer)).2 := by
  have hgrow := grows_newFrame w s (some outer) label
  have hglobals : Store.globals ≠ s.frames.size := Nat.ne_of_lt h.globals
  refine ⟨?_, ?_, ?_, ?_, ?_, ?_, ?_, ?_, ?_⟩
  · simpa [Store.newFrame] using h.size
  · simpa [Store.newFrame] using Nat.lt_succ_of_lt h.globals
  · rw [Function.update_of_ne hglobals, h.label]
  · rw [Store.enclosing?_newFrame, if_neg hglobals, h.outermost]
  · intro g
    rw [Store.enclosing?_newFrame, Store.enclosing?_newFrame, h.size, h.link]
  · intro g m
    rw [Store.local?_newFrame, Store.local?_newFrame]
    by_cases hg : g = s.frames.size
    · have hs : s.local? g m = none := Store.local?_of_size_le (Nat.le_of_eq hg.symm) m
      have hs' : ∀ n, s'.local? g n = none :=
        Store.local?_of_size_le (Nat.le_of_eq (h.size.trans hg.symm))
      rw [hs, hs']
      exact .none
    · rw [Function.update_of_ne hg]
      exact (h.binding g m).mono fun _ _ hb => hb.grow hgrow
  · intro g u hg hu
    rw [Store.local?_newFrame] at hu
    have hlt : g < s.frames.size := Store.lt_size_of_local? (Option.isSome_of_eq_some hu)
    rw [Function.update_of_ne (Nat.ne_of_lt hlt)] at hg
    exact h.receiver g u hg hu
  · intro g u hg hu
    rw [Store.local?_newFrame] at hu
    have hlt : g < s.frames.size := Store.lt_size_of_local? (Option.isSome_of_eq_some hu)
    rw [Function.update_of_ne (Nat.ne_of_lt hlt)] at hg
    exact h.superclass g u hg hu
  · exact fun i => (h.instances i).mono fun _ _ ho => ho.grow hgrow

/-- Instances that change alike. -/
lemma withInstances (h : StoreLike E w s s') {instances instances' : Array Instance}
    (hi : ∀ i : InstanceId, Option.Rel (InstanceLike E w s) instances[i]? instances'[i]?) :
    StoreLike E w { s with instances } { s' with instances := instances' } := by
  have hgrow := grows_instances w s instances
  refine ⟨h.size, h.globals, h.label, h.outermost, h.link, ?_, h.receiver, h.superclass, ?_⟩
  · exact fun g m => (h.binding g m).mono fun _ _ hb => hb.grow hgrow
  · exact fun i => (hi i).mono fun _ _ ho => ho.grow hgrow

lemma ancestor?_eq (h : StoreLike E w s s') (f : FrameId) (distance : Nat) :
    s'.ancestor? f distance = s.ancestor? f distance := by
  induction distance generalizing f with
  | zero => rfl
  | succ distance ih => simp only [Store.ancestor?, h.link, ih]

lemma outermost_right (h : StoreLike E w s s') : s'.enclosing? Store.globals = none := by
  rw [h.link, h.outermost]

/-- The other side of a variable. -/
lemma exists_binding (h : StoreLike E w s s') {f : FrameId} {n : String} {v : Value}
    (hv : s.local? f n = some v) :
    ∃ v', s'.local? f ((w f).rename n) = some v' ∧ ValueLike E w s v v' := by
  obtain ⟨hn, -⟩ | ⟨u, v', hu, hv', hlike⟩ := (h.binding f n).none_or_some
  · rw [hn] at hv
    cases hv
  · rw [hu] at hv
    cases hv
    exact ⟨v', hv', hlike⟩

lemma binding_globals (h : StoreLike E w s s') (n : String) :
    Option.Rel (ValueLike E w s) (s.local? Store.globals n) (s'.local? Store.globals n) := by
  simpa [h.label, Label.rename] using h.binding Store.globals n

lemma instances_size (h : StoreLike E w s s') : s'.instances.size = s.instances.size := by
  apply Nat.le_antisymm
  · by_contra hlt
    have hi := h.instances s.instances.size
    rw [Array.getElem?_eq_none (Nat.le_refl _), Array.getElem?_eq_getElem (Nat.not_le.mp hlt)] at hi
    cases hi
  · by_contra hlt
    have hi := h.instances s'.instances.size
    rw [Array.getElem?_eq_none (Nat.le_refl _), Array.getElem?_eq_getElem (Nat.not_le.mp hlt)] at hi
    cases hi

lemma newInstance (h : StoreLike E w s s') {c c' : Class} (hc : ClassLike E w s c c') :
    StoreLike E w (s.newInstance c).2 (s'.newInstance c').2 := by
  refine h.withInstances fun i => ?_
  rw [Array.getElem?_push, Array.getElem?_push, h.instances_size]
  split
  · exact .some ⟨hc, fun n => by simp⟩
  · exact h.instances i

lemma setField (h : StoreLike E w s s') {v v' : Value} (hv : ValueLike E w s v v')
    (i : InstanceId) (n : String) : StoreLike E w (s.setField i n v) (s'.setField i n v') := by
  refine h.withInstances fun j => ?_
  rw [Array.getElem?_modify, Array.getElem?_modify]
  split
  · obtain ⟨hj, hj'⟩ | ⟨o, o', hj, hj', ho⟩ := (h.instances j).none_or_some
    · rw [hj, hj']
      exact .none
    · rw [hj, hj']
      refine .some ⟨ho.ofClass, fun m => ?_⟩
      simp only [Std.TreeMap.getElem?_insert]
      split
      · exact .some hv
      · exact ho.fields m
  · exact h.instances j

end StoreLike

namespace Aligned

variable {w : Labels} {s : Store} {f : FrameId} {Γ : Layers}

lemma lt {E : Setting} {s' : Store} (h : Aligned w s f Γ) (hs : StoreLike E w s s') :
    f < s.frames.size := by
  cases Γ with
  | nil =>
    obtain rfl : f = Store.globals := h
    exact hs.globals
  | cons layer Γ => exact h.1

/-- Names that are declared here have the frame's spelling on the other side. -/
lemma declares {E : Setting} {s' : Store} {n n' : String} (h : Aligned w s f Γ)
    (hs : StoreLike E w s s') (hn : Γ.DeclaresAs n n') : ∃ ρ, w f = .names ρ ∧ n' = ρ n := by
  cases Γ with
  | nil =>
    obtain rfl : f = Store.globals := h
    exact ⟨Equiv.refl String, hs.label, hn⟩
  | cons layer Γ =>
    obtain ⟨ρ, hρ, hn'⟩ := hn
    exact ⟨ρ, h.2.1.trans hρ, hn'⟩

/-- A name that is not ready asks nothing of the frame. -/
lemma unready (h : Aligned w s f Γ) (n : String) : Aligned w s f (Γ.enter n false) := by
  cases Γ with
  | nil => exact h
  | cons layer Γ =>
    obtain ⟨hf, hlabel, hbound, houter⟩ := h
    refine ⟨hf, hlabel, fun m hm => ?_, houter⟩
    by_cases hmn : m = n
    · subst hmn
      simp [Layer.enter] at hm
    · exact hbound m (by simpa [Layer.enter, hmn] using hm)

lemma define (h : Aligned w s f Γ) (n : String) (v : Value) :
    Aligned w (s.define f n v) f (Γ.enter n true) := by
  have hgrown := h.grow (grows_define w s f n v)
  cases Γ with
  | nil => exact h
  | cons layer Γ =>
    obtain ⟨hf, hlabel, hbound, houter⟩ := hgrown
    refine ⟨hf, hlabel, fun m hm => ?_, houter⟩
    by_cases hmn : m = n
    · subst hmn
      simp [Store.local?_define s f m v f m h.1]
    · exact hbound m (by simpa [Layer.enter, hmn] using hm)

lemma newFrame (h : Aligned w s f Γ) (label : Label) :
    Aligned (Function.update w s.frames.size label) (s.newFrame (some f)).2 s.frames.size
      (Layer.empty label :: Γ) := by
  refine ⟨by simp [Store.newFrame], by simp [Layer.empty], by simp [Layer.empty], f, ?_, ?_⟩
  · simp [Store.enclosing?_newFrame]
  · exact h.grow (grows_newFrame w s (some f) label)

/-- The frame of a call, once its parameters are bound. -/
lemma parameters {ρ : Equiv.Perm String} {params : List Token}
    (h : Aligned w s f (Layer.empty (.names ρ) :: Γ))
    (hbound : ∀ n ∈ params.map Token.lexeme, (s.local? f n).isSome) :
    Aligned w s f (Layer.ofParameters ρ params :: Γ) := by
  obtain ⟨hf, hlabel, -, houter⟩ := h
  refine ⟨hf, hlabel, fun n hn => hbound n ?_, houter⟩
  by_contra hmem
  simp only [Layer.ofParameters, if_neg hmem] at hn
  cases hn

end Aligned

end GermanLox
