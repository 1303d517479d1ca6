import GermanLox.Machine
import Mathlib.Order.Bounds.Basic
import Mathlib.Order.Nat

/-!
# Variables by walking and by distance

Frames are shared: many chains of links lead through one frame. Walking outward from a frame stops
in the first frame that has the name, and that is the frame at the least distance at which one has
it. A write changes this one slot. So it shows from every frame that comes to the name first in the
frame written to, and from no other, and it shows under no other name.
-/

namespace GermanLox
namespace Store

/-- Stores whose frames are made one by one, alone or inside of others, and whose variables are
defined, assigned by walking or assigned by distance, in any order. -/
inductive Forest : Store → Prop
  | empty : Forest {}
  | new {s} (h : Forest s) : Forest (s.newFrame none).2
  | childOf {s f} (h : Forest s) (hf : f < s.frames.size) : Forest (s.newFrame (some f)).2
  | define {s f n v} (h : Forest s) (hf : f < s.frames.size) : Forest (s.define f n v)
  | assign {s s' f n v} (h : Forest s) (hassign : s.assign? f n v = some s') : Forest s'
  | assignAt {s s' f d n v} (h : Forest s) (hassign : s.assignAt? f d n v = some s') : Forest s'

/-- The distances at which a frame outward has a variable. -/
def bindingDistances (s : Store) (f : FrameId) (n : String) : Set Nat :=
  {d | (s.getAt? f d n).isSome}

@[simp] lemma mem_bindingDistances {s : Store} {f : FrameId} {n : String} {d : Nat} :
    d ∈ s.bindingDistances f n ↔ (s.getAt? f d n).isSome :=
  Iff.rfl

/-- From a frame, the first one outward that has a variable. -/
def FirstIn (s : Store) (f : FrameId) (n : String) (target : FrameId) : Prop :=
  ∃ k, IsLeast (s.bindingDistances f n) k ∧ s.ancestor? f k = some target

section Links

variable {s : Store} {f g k : Nat}

/-- Links lead to older frames. -/
lemma Forest.link_lt (h : Forest s) (hlink : s.enclosing? f = some g) : g < f := by
  induction h generalizing f g with
  | empty => simp [enclosing?] at hlink
  | new _ ih =>
    rw [enclosing?_newFrame] at hlink
    split at hlink
    · cases hlink
    · exact ih hlink
  | @childOf s outer _ houter ih =>
    rw [enclosing?_newFrame] at hlink
    split at hlink
    · rename_i hf
      obtain rfl : outer = g := Option.some.inj hlink
      exact hf ▸ houter
    · exact ih hlink
  | define _ _ ih =>
    rw [enclosing?_define] at hlink
    exact ih hlink
  | assign _ hassign ih =>
    obtain ⟨target, -, rfl⟩ := Option.map_eq_some_iff.mp hassign
    rw [enclosing?_define] at hlink
    exact ih hlink
  | assignAt _ hassign ih =>
    obtain ⟨target, -, rfl⟩ := Option.map_eq_some_iff.mp hassign
    rw [enclosing?_define] at hlink
    exact ih hlink

lemma ancestor?_of_link (hlink : s.enclosing? f = some g) :
    s.ancestor? f (k + 1) = s.ancestor? g k := by
  simp only [ancestor?, hlink, Option.bind_some]

/-- There are no more frames outward than the place of a frame tells. -/
lemma Forest.add_le_of_ancestor? (h : Forest s) (hg : s.ancestor? f k = some g) : g + k ≤ f := by
  induction k generalizing f with
  | zero =>
    obtain rfl : f = g := Option.some.inj hg
    omega
  | succ k ih =>
    obtain ⟨outer, hlink, hg⟩ := Option.bind_eq_some_iff.mp hg
    exact Nat.lt_of_le_of_lt (ih hg) (h.link_lt hlink)

end Links

section Walk

variable {s : Store} {f k : Nat} {n : String}

lemma getAt?_of_link {g : FrameId} (hlink : s.enclosing? f = some g) :
    s.getAt? f (k + 1) n = s.getAt? g k n := by
  simp only [getAt?, ancestor?_of_link hlink]

/-- A frame at some distance has the variable if the least distance is not zero. -/
lemma exists_link_of_isLeast (h : IsLeast (s.bindingDistances f n) (k + 1)) :
    ∃ g, s.enclosing? f = some g ∧ IsLeast (s.bindingDistances g n) k := by
  obtain ⟨hbound, hleast⟩ := h
  cases hlink : s.enclosing? f with
  | none => simp [getAt?, ancestor?, hlink] at hbound
  | some g =>
    refine ⟨g, rfl, ?_, ?_⟩
    · simpa [getAt?_of_link hlink] using hbound
    · intro d hd
      have hd' : d + 1 ∈ s.bindingDistances f n := by
        simpa [getAt?_of_link hlink] using hd
      have := hleast hd'
      omega

/-- A walk that is long enough ends at the least distance. -/
lemma frameWithin?_of_isLeast (h : IsLeast (s.bindingDistances f n) k) {count : Nat}
    (hcount : k < count) : s.frameWithin? n count f = s.ancestor? f k := by
  induction k generalizing f count with
  | zero =>
    obtain ⟨count, rfl⟩ : ∃ c, count = c + 1 := ⟨count - 1, by omega⟩
    have hlocal : (s.local? f n).isSome := h.1
    simp only [frameWithin?, hlocal, if_true, ancestor?]
  | succ k ih =>
    obtain ⟨count, rfl⟩ : ∃ c, count = c + 1 := ⟨count - 1, by omega⟩
    obtain ⟨g, hlink, hg⟩ := exists_link_of_isLeast h
    have hlocal : ¬ (s.local? f n).isSome := by
      intro hbound
      have := h.2 (show 0 ∈ s.bindingDistances f n from hbound)
      omega
    rw [frameWithin?, if_neg hlocal, hlink, Option.bind_some, ih hg (by omega),
      ancestor?_of_link hlink]

lemma frameWithin?_of_empty (h : ∀ d, s.getAt? f d n = none) (count : Nat) :
    s.frameWithin? n count f = none := by
  induction count generalizing f with
  | zero => rfl
  | succ count ih =>
    have hlocal : s.local? f n = none := h 0
    cases hlink : s.enclosing? f with
    | none => simp [frameWithin?, hlocal, hlink]
    | some g =>
      have hg : ∀ d, s.getAt? g d n = none := by
        intro d
        rw [← getAt?_of_link hlink]
        exact h (d + 1)
      simp [frameWithin?, hlocal, hlink, ih hg]

/-- Walking outward ends in the frame at the least distance. -/
lemma Forest.frameOf?_eq (h : Forest s) (hk : IsLeast (s.bindingDistances f n) k) :
    s.frameOf? f n = s.ancestor? f k := by
  obtain ⟨v, hv⟩ := Option.isSome_iff_exists.mp hk.1
  obtain ⟨g, hg, -⟩ := Option.bind_eq_some_iff.mp hv
  have hle : k ≤ f := Nat.le_trans (Nat.le_add_left k g) (h.add_le_of_ancestor? hg)
  exact frameWithin?_of_isLeast hk (by omega)

lemma Forest.get?_eq (h : Forest s) (hk : IsLeast (s.bindingDistances f n) k) :
    s.get? f n = s.getAt? f k n := by
  rw [get?, h.frameOf?_eq hk, getAt?]

lemma Forest.assign?_eq (h : Forest s) (hk : IsLeast (s.bindingDistances f n) k) (v : Value) :
    s.assign? f n v = s.assignAt? f k n v := by
  rw [assign?, h.frameOf?_eq hk, assignAt?]

end Walk

section Write

variable {s : Store} {f target : FrameId} {n : String} {k : Nat}

/-- Writing to a variable that is there changes no frame's names. -/
lemma bindingDistances_define (h : (s.local? target n).isSome) (v : Value) (g : FrameId)
    (m : String) : (s.define target n v).bindingDistances g m = s.bindingDistances g m := by
  have hlocal : ∀ o, ((s.define target n v).local? o m).isSome = (s.local? o m).isSome := by
    intro o
    rw [local?_define s target n v o m (lt_size_of_local? h)]
    split
    · rename_i heq
      obtain ⟨rfl, rfl⟩ := heq
      exact h.symm
    · rfl
  ext d
  simp only [mem_bindingDistances, getAt?, ancestor?_define]
  cases s.ancestor? g d with
  | none => rfl
  | some o => simp only [Option.bind_some, hlocal]

lemma Forest.get?_of_firstIn (h : Forest s) (hfirst : s.FirstIn f n target) :
    s.get? f n = s.local? target n := by
  obtain ⟨k, hk, htarget⟩ := hfirst
  rw [h.get?_eq hk, getAt?, htarget, Option.bind_some]

/-- Either some frame outward has the variable, and one of these comes first, or none has it. -/
lemma firstIn_or_unbound (s : Store) (f : FrameId) (n : String) :
    (∃ target, s.FirstIn f n target) ∨ ∀ d, s.getAt? f d n = none := by
  by_cases h : ∃ d, (s.getAt? f d n).isSome
  · left
    have hleast : IsLeast (s.bindingDistances f n) (Nat.find h) := Nat.isLeast_find h
    obtain ⟨v, hv⟩ := Option.isSome_iff_exists.mp hleast.1
    obtain ⟨target, htarget, -⟩ := Option.bind_eq_some_iff.mp hv
    exact ⟨target, Nat.find h, hleast, htarget⟩
  · right
    intro d
    by_contra hd
    exact h ⟨d, Option.isSome_iff_ne_none.mpr hd⟩

lemma FirstIn.unique {other : FrameId} (h : s.FirstIn f n target) (h' : s.FirstIn f n other) :
    target = other := by
  obtain ⟨k, hk, htarget⟩ := h
  obtain ⟨k', hk', hother⟩ := h'
  rw [hk.unique hk', hother] at htarget
  exact (Option.some.inj htarget).symm

lemma firstIn_define (h : (s.local? target n).isSome) (v : Value) (g : FrameId) (m : String)
    (o : FrameId) : (s.define target n v).FirstIn g m o ↔ s.FirstIn g m o := by
  simp only [FirstIn, bindingDistances_define h, ancestor?_define]

lemma get?_of_unbound (h : ∀ d, s.getAt? f d n = none) : s.get? f n = none := by
  rw [get?, frameOf?, frameWithin?_of_empty h, Option.bind_none]

lemma assign?_of_unbound (h : ∀ d, s.getAt? f d n = none) (v : Value) :
    s.assign? f n v = none := by
  rw [assign?, frameOf?, frameWithin?_of_empty h, Option.map_none]

/-- What is written to a variable that is there shows from where the walk ends in its frame. -/
lemma Forest.get?_define (h : Forest s) (hbound : (s.local? target n).isSome) (v : Value)
    (g : FrameId) (m : String) :
    (m = n ∧ s.FirstIn g m target → (s.define target n v).get? g m = some v) ∧
      (¬ (m = n ∧ s.FirstIn g m target) → (s.define target n v).get? g m = s.get? g m) := by
  have hlt := lt_size_of_local? hbound
  have hforest : Forest (s.define target n v) := h.define hlt
  rcases firstIn_or_unbound s g m with ⟨o, ho⟩ | hnone
  · have hafter : (s.define target n v).get? g m =
        if target = o ∧ n = m then some v else s.local? o m := by
      rw [hforest.get?_of_firstIn ((firstIn_define hbound v g m o).mpr ho),
        local?_define _ _ _ _ _ _ hlt]
    rw [hafter, h.get?_of_firstIn ho]
    constructor
    · rintro ⟨rfl, htarget⟩
      rw [if_pos ⟨htarget.unique ho, rfl⟩]
    · intro hother
      rw [if_neg]
      rintro ⟨rfl, rfl⟩
      exact hother ⟨rfl, ho⟩
  · have hunbound : (s.define target n v).get? g m = none := by
      rcases firstIn_or_unbound (s.define target n v) g m with ⟨o, ho⟩ | hnone'
      · obtain ⟨k, hk, -⟩ := (firstIn_define hbound v g m o).mp ho
        have hsome : (s.getAt? g k m).isSome := hk.1
        simp [hnone k] at hsome
      · exact get?_of_unbound hnone'
    rw [hunbound, get?_of_unbound hnone]
    constructor
    · rintro ⟨-, k, hk, -⟩
      have hsome : (s.getAt? g k m).isSome := hk.1
      simp [hnone k] at hsome
    · intro _
      rfl

end Write

/-- Where no frame outward has the name, reading and assigning fail at it and leave the machine as
it is. -/
lemma fails_of_unbound {m : Machine} {f : FrameId} {name : Token}
    (h : ∀ d, m.store.getAt? f d name.lexeme = none) (v : Value) :
    (Eval.inspect (·.get? f name.lexeme) >>= Eval.orFail name .undefinedVariable) m =
        .error (.fault ⟨name, .undefinedVariable⟩) m ∧
      Eval.assignFrom f name v m = .error (.fault ⟨name, .undefinedVariable⟩) m := by
  have hframe : m.store.frameOf? f name.lexeme = none := frameWithin?_of_empty h _
  constructor
  · simp only [Eval.inspect, Eval.orFail, Eval.fail, Bind.bind, EStateM.bind, get?_of_unbound h]
  · simp only [Eval.assignFrom, Eval.inspect, Eval.orFail, Eval.fail, Bind.bind, EStateM.bind,
      hframe]

/-- Walking and the least distance at which a frame has the name lead to one slot: a value is read
from it, and an assignment changes the store as one by that distance does. From then on the new
value shows from all frames that come to the name first in the same frame, and everything else is as
before. Where no frame outward has the name, reading and assigning fail at the name and change
nothing. -/
theorem Forest.walking_agrees_with_distance {s : Store} (h : s.Forest) (f : FrameId) (name : Token)
    (v : Value) :
    (∀ k, IsLeast (s.bindingDistances f name.lexeme) k →
      s.get? f name.lexeme = s.getAt? f k name.lexeme ∧
      s.assign? f name.lexeme v = s.assignAt? f k name.lexeme v ∧
      ∃ target s', s.ancestor? f k = some target ∧ s.assign? f name.lexeme v = some s' ∧
        ∀ g n, (n = name.lexeme ∧ s.FirstIn g n target → s'.get? g n = some v) ∧
          (¬ (n = name.lexeme ∧ s.FirstIn g n target) → s'.get? g n = s.get? g n)) ∧
    ((∀ k, s.getAt? f k name.lexeme = none) →
      s.get? f name.lexeme = none ∧ s.assign? f name.lexeme v = none ∧
      ∀ m : Machine, m.store = s →
        (Eval.inspect (·.get? f name.lexeme) >>= Eval.orFail name .undefinedVariable) m =
            .error (.fault ⟨name, .undefinedVariable⟩) m ∧
          Eval.assignFrom f name v m = .error (.fault ⟨name, .undefinedVariable⟩) m) := by
  constructor
  · intro k hk
    refine ⟨h.get?_eq hk, h.assign?_eq hk v, ?_⟩
    obtain ⟨u, hu⟩ := Option.isSome_iff_exists.mp hk.1
    obtain ⟨target, htarget, hlocal⟩ := Option.bind_eq_some_iff.mp hu
    refine ⟨target, s.define target name.lexeme v, htarget, ?_, ?_⟩
    · rw [h.assign?_eq hk, assignAt?, htarget, Option.map_some]
    · exact h.get?_define (Option.isSome_iff_exists.mpr ⟨u, hlocal⟩) v
  · intro hnone
    refine ⟨get?_of_unbound hnone, assign?_of_unbound hnone v, ?_⟩
    rintro m rfl
    exact fails_of_unbound hnone v

/-- An outermost frame with a variable and two frames inside of it, the second of which has a
variable of the same name. -/
private def sharedOuter : Store :=
  (((({} : Store).newFrame none).2.define 0 "a" (.bool true)).newFrame (some 0)).2.newFrame (some 0)
    |>.2.define 2 "a" .nil

/-- An assignment from the first inner frame shows in the outermost one. The second inner frame
keeps its own variable. -/
theorem Forest.walking_agrees_sharedOuter :
    sharedOuter.Forest ∧ IsLeast (sharedOuter.bindingDistances 1 "a") 1 ∧
      ∃ s', sharedOuter.assign? 1 "a" (.string "neu") = some s' ∧
        s'.get? 0 "a" = some (.string "neu") ∧ s'.get? 2 "a" = some .nil := by
  have hforest : sharedOuter.Forest :=
    .define (.childOf (.childOf (.define (.new .empty) (by decide)) (by decide)) (by decide))
      (by decide)
  have hleast : IsLeast (sharedOuter.bindingDistances 1 "a") 1 := by
    refine ⟨rfl, ?_⟩
    intro d hd
    cases d with
    | zero => cases hd
    | succ d => omega
  have houter : sharedOuter.FirstIn 0 "a" 0 := ⟨0, ⟨rfl, fun _ _ => Nat.zero_le _⟩, rfl⟩
  have hinner : sharedOuter.FirstIn 2 "a" 2 := ⟨0, ⟨rfl, fun _ _ => Nat.zero_le _⟩, rfl⟩
  obtain ⟨hbound, -⟩ :=
    hforest.walking_agrees_with_distance 1 ⟨.identifier, "a", 1⟩ (.string "neu")
  obtain ⟨-, -, target, s', htarget, hassign, hshows⟩ := hbound 1 hleast
  obtain rfl : 0 = target := Option.some.inj htarget
  refine ⟨hforest, hleast, s', hassign, (hshows 0 "a").1 ⟨rfl, houter⟩, ?_⟩
  refine ((hshows 2 "a").2 ?_).trans rfl
  rintro ⟨-, hfirst⟩
  exact absurd (hfirst.unique hinner) (by decide)

end Store
end GermanLox
