import GermanLox.Proofs.Reading.Contents
import GermanLox.Proofs.Relabel
import Mathlib.Data.List.Nodup

/-!
# Trees that differ in their numbers

Two trees that are equal without their numbers, and in which no number is given twice, differ by a
one-to-one change of numbers.
-/

namespace GermanLox

section Numbers

variable (number : ExprId → ExprId) (token : Token → Token)

mutual

lemma Expr.numbers_relabel (e : Expr) :
    (e.relabel number token).numbers = e.numbers.map number := by
  match e with
  | .literal .. => rfl
  | .grouping _ e => simp [Expr.relabel, Expr.numbers, Expr.numbers_relabel e]
  | .unary _ _ _ e => simp [Expr.relabel, Expr.numbers, Expr.numbers_relabel e]
  | .binary _ _ _ l r =>
    simp [Expr.relabel, Expr.numbers, Expr.numbers_relabel l, Expr.numbers_relabel r]
  | .logical _ _ _ l r =>
    simp [Expr.relabel, Expr.numbers, Expr.numbers_relabel l, Expr.numbers_relabel r]
  | .var .. => rfl
  | .assign _ _ e => simp [Expr.relabel, Expr.numbers, Expr.numbers_relabel e]
  | .call _ e _ es =>
    simp [Expr.relabel, Expr.numbers, Expr.numbers_relabel e, Expr.numbersAll_relabelAll es]
  | .get _ e _ => simp [Expr.relabel, Expr.numbers, Expr.numbers_relabel e]
  | .set _ e _ v =>
    simp [Expr.relabel, Expr.numbers, Expr.numbers_relabel e, Expr.numbers_relabel v]
  | .this .. => rfl
  | .super .. => rfl

lemma Expr.numbersAll_relabelAll (es : List Expr) :
    Expr.numbersAll (Expr.relabelAll number token es) = (Expr.numbersAll es).map number := by
  match es with
  | [] => rfl
  | e :: es =>
    simp [Expr.relabelAll, Expr.numbersAll, Expr.numbers_relabel e, Expr.numbersAll_relabelAll es]

end

lemma Expr.numbersOf_map_relabel (e : Option Expr) :
    Expr.numbersOf (e.map (Expr.relabel number token)) = (Expr.numbersOf e).map number := by
  cases e with
  | none => rfl
  | some e => exact Expr.numbers_relabel number token e

mutual

lemma Stmt.numbers_relabel (s : Stmt) :
    (s.relabel number token).numbers = s.numbers.map number := by
  match s with
  | .expression e => exact Expr.numbers_relabel number token e
  | .print e => exact Expr.numbers_relabel number token e
  | .varDecl _ e => exact Expr.numbersOf_map_relabel number token e
  | .block body => exact Stmt.numbersAll_relabelAll body
  | .ifElse e s none =>
    simp [Stmt.relabel, Stmt.numbers, Expr.numbers_relabel, Stmt.numbers_relabel s]
  | .ifElse e s (some u) =>
    simp [Stmt.relabel, Stmt.numbers, Expr.numbers_relabel, Stmt.numbers_relabel s,
      Stmt.numbers_relabel u]
  | .loop e s => simp [Stmt.relabel, Stmt.numbers, Expr.numbers_relabel, Stmt.numbers_relabel s]
  | .funDecl decl => exact FunctionDecl.numbers_relabel decl
  | .ret _ e => exact Expr.numbersOf_map_relabel number token e
  | .classDecl _ e decls =>
    simp [Stmt.relabel, Stmt.numbers, Expr.numbersOf_map_relabel,
      FunctionDecl.numbersAll_relabelAll decls]

lemma Stmt.numbersAll_relabelAll (ss : List Stmt) :
    Stmt.numbersAll (Stmt.relabelAll number token ss) = (Stmt.numbersAll ss).map number := by
  match ss with
  | [] => rfl
  | s :: ss =>
    simp [Stmt.relabelAll, Stmt.numbersAll, Stmt.numbers_relabel s, Stmt.numbersAll_relabelAll ss]

lemma FunctionDecl.numbers_relabel (decl : FunctionDecl) :
    (decl.relabel number token).numbers = decl.numbers.map number := by
  match decl with
  | ⟨_, _, body⟩ => exact Stmt.numbersAll_relabelAll body

lemma FunctionDecl.numbersAll_relabelAll (decls : List FunctionDecl) :
    FunctionDecl.numbersAll (FunctionDecl.relabelAll number token decls) =
      (FunctionDecl.numbersAll decls).map number := by
  match decls with
  | [] => rfl
  | decl :: decls =>
    simp [FunctionDecl.relabelAll, FunctionDecl.numbersAll, FunctionDecl.numbers_relabel decl,
      FunctionDecl.numbersAll_relabelAll decls]

end

end Numbers

/-! ### Trees with the same shape -/

section Shapes

variable {number : ExprId → ExprId}

/-- Trees with the same shape have as many numbers. -/
lemma Expr.length_numbers {e e' : Expr} (h : e'.unnumbered = e.unnumbered) :
    e'.numbers.length = (e.numbers.map number).length := by
  have hlength := congrArg (fun e => e.numbers.length) h
  simpa [Expr.unnumbered, Expr.numbers_relabel] using hlength

lemma Expr.length_numbersOf {e e' : Option Expr}
    (h : e'.map Expr.unnumbered = e.map Expr.unnumbered) :
    (Expr.numbersOf e').length = ((Expr.numbersOf e).map number).length := by
  have hlength := congrArg (fun e => (Expr.numbersOf e).length) h
  unfold Expr.unnumbered at hlength
  simpa [Expr.numbersOf_map_relabel] using hlength

lemma Stmt.length_numbers {s s' : Stmt} (h : s'.unnumbered = s.unnumbered) :
    s'.numbers.length = (s.numbers.map number).length := by
  have hlength := congrArg (fun s => s.numbers.length) h
  simpa [Stmt.unnumbered, Stmt.numbers_relabel] using hlength

lemma FunctionDecl.length_numbers {decl decl' : FunctionDecl}
    (h : decl'.unnumbered = decl.unnumbered) :
    decl'.numbers.length = (decl.numbers.map number).length := by
  have hlength := congrArg (fun decl => decl.numbers.length) h
  simpa [FunctionDecl.unnumbered, FunctionDecl.numbers_relabel] using hlength

mutual

/-- A tree of the same shape is a relabelling if its numbers are the new ones. -/
lemma Expr.eq_relabel {e e' : Expr} (h : e'.unnumbered = e.unnumbered)
    (hnumbers : e'.numbers = e.numbers.map number) : e' = e.relabel number (fun t => t) := by
  match e with
  | .literal i value =>
    cases e' with
    | literal i' value' =>
      obtain rfl : value' = value := by simpa [Expr.unnumbered, Expr.relabel] using h
      obtain rfl : i' = number i := by simpa [Expr.numbers] using hnumbers
      rfl
    | _ => cases h
  | .grouping i e =>
    cases e' with
    | grouping i' e' =>
      obtain ⟨rfl, hrest⟩ := List.cons.inj hnumbers
      rw [Expr.relabel, ← Expr.eq_relabel (Expr.grouping.inj h).2 hrest]
    | _ => cases h
  | .unary i op t e =>
    cases e' with
    | unary i' op' t' e' =>
      obtain ⟨-, rfl, rfl, he⟩ := Expr.unary.inj h
      obtain ⟨rfl, hrest⟩ := List.cons.inj hnumbers
      rw [Expr.relabel, ← Expr.eq_relabel he hrest]
    | _ => cases h
  | .binary i op t l r =>
    cases e' with
    | binary i' op' t' l' r' =>
      obtain ⟨-, rfl, rfl, hl, hr⟩ := Expr.binary.inj h
      obtain ⟨rfl, hrest⟩ := List.cons.inj hnumbers
      rw [List.map_append] at hrest
      obtain ⟨hnl, hnr⟩ := List.append_inj hrest (Expr.length_numbers hl)
      rw [Expr.relabel, ← Expr.eq_relabel hl hnl, ← Expr.eq_relabel hr hnr]
    | _ => cases h
  | .logical i op t l r =>
    cases e' with
    | logical i' op' t' l' r' =>
      obtain ⟨-, rfl, rfl, hl, hr⟩ := Expr.logical.inj h
      obtain ⟨rfl, hrest⟩ := List.cons.inj hnumbers
      rw [List.map_append] at hrest
      obtain ⟨hnl, hnr⟩ := List.append_inj hrest (Expr.length_numbers hl)
      rw [Expr.relabel, ← Expr.eq_relabel hl hnl, ← Expr.eq_relabel hr hnr]
    | _ => cases h
  | .var i name =>
    cases e' with
    | var i' name' =>
      obtain ⟨-, rfl⟩ := Expr.var.inj h
      obtain ⟨rfl, -⟩ := List.cons.inj hnumbers
      rfl
    | _ => cases h
  | .assign i name e =>
    cases e' with
    | assign i' name' e' =>
      obtain ⟨-, rfl, he⟩ := Expr.assign.inj h
      obtain ⟨rfl, hrest⟩ := List.cons.inj hnumbers
      rw [Expr.relabel, ← Expr.eq_relabel he hrest]
    | _ => cases h
  | .call i e t es =>
    cases e' with
    | call i' e' t' es' =>
      obtain ⟨-, he, rfl, hes⟩ := Expr.call.inj h
      obtain ⟨rfl, hrest⟩ := List.cons.inj hnumbers
      rw [List.map_append] at hrest
      obtain ⟨hne, hnes⟩ := List.append_inj hrest (Expr.length_numbers he)
      rw [Expr.relabel, ← Expr.eq_relabel he hne, ← Expr.eq_relabelAll hes hnes]
    | _ => cases h
  | .get i e name =>
    cases e' with
    | get i' e' name' =>
      obtain ⟨-, he, rfl⟩ := Expr.get.inj h
      obtain ⟨rfl, hrest⟩ := List.cons.inj hnumbers
      rw [Expr.relabel, ← Expr.eq_relabel he hrest]
    | _ => cases h
  | .set i e name v =>
    cases e' with
    | set i' e' name' v' =>
      obtain ⟨-, he, rfl, hv⟩ := Expr.set.inj h
      obtain ⟨rfl, hrest⟩ := List.cons.inj hnumbers
      rw [List.map_append] at hrest
      obtain ⟨hne, hnv⟩ := List.append_inj hrest (Expr.length_numbers he)
      rw [Expr.relabel, ← Expr.eq_relabel he hne, ← Expr.eq_relabel hv hnv]
    | _ => cases h
  | .this i keyword =>
    cases e' with
    | this i' keyword' =>
      obtain ⟨-, rfl⟩ := Expr.this.inj h
      obtain ⟨rfl, -⟩ := List.cons.inj hnumbers
      rfl
    | _ => cases h
  | .super i keyword method =>
    cases e' with
    | super i' keyword' method' =>
      obtain ⟨-, rfl, rfl⟩ := Expr.super.inj h
      obtain ⟨rfl, -⟩ := List.cons.inj hnumbers
      rfl
    | _ => cases h

lemma Expr.eq_relabelAll {es es' : List Expr}
    (h : Expr.unnumberedAll es' = Expr.unnumberedAll es)
    (hnumbers : Expr.numbersAll es' = (Expr.numbersAll es).map number) :
    es' = Expr.relabelAll number (fun t => t) es := by
  match es with
  | [] =>
    cases es' with
    | nil => rfl
    | cons => cases h
  | e :: es =>
    cases es' with
    | nil => cases h
    | cons e' es' =>
      obtain ⟨he, hes⟩ := List.cons.inj h
      rw [Expr.numbersAll, Expr.numbersAll, List.map_append] at hnumbers
      obtain ⟨hne, hnes⟩ := List.append_inj hnumbers (Expr.length_numbers he)
      rw [Expr.relabelAll, ← Expr.eq_relabel he hne, ← Expr.eq_relabelAll hes hnes]

end

lemma Expr.eq_map_relabel {e e' : Option Expr}
    (h : e'.map Expr.unnumbered = e.map Expr.unnumbered)
    (hnumbers : Expr.numbersOf e' = (Expr.numbersOf e).map number) :
    e' = e.map (Expr.relabel number fun t => t) := by
  cases e with
  | none => simpa using h
  | some e =>
    cases e' with
    | none => cases h
    | some e' => exact congrArg some (Expr.eq_relabel (Option.some.inj h) hnumbers)

mutual

lemma Stmt.eq_relabel {s s' : Stmt} (h : s'.unnumbered = s.unnumbered)
    (hnumbers : s'.numbers = s.numbers.map number) : s' = s.relabel number (fun t => t) := by
  match s with
  | .expression e =>
    cases s' with
    | expression e' =>
      exact congrArg Stmt.expression (Expr.eq_relabel (Stmt.expression.inj h) hnumbers)
    | ifElse _ _ u => cases u <;> cases h
    | _ => cases h
  | .print e =>
    cases s' with
    | print e' => exact congrArg Stmt.print (Expr.eq_relabel (Stmt.print.inj h) hnumbers)
    | ifElse _ _ u => cases u <;> cases h
    | _ => cases h
  | .varDecl name e =>
    cases s' with
    | varDecl name' e' =>
      obtain ⟨rfl, he⟩ := Stmt.varDecl.inj h
      exact congrArg (Stmt.varDecl name') (Expr.eq_map_relabel he hnumbers)
    | ifElse _ _ u => cases u <;> cases h
    | _ => cases h
  | .block body =>
    cases s' with
    | block body' => exact congrArg Stmt.block (Stmt.eq_relabelAll (Stmt.block.inj h) hnumbers)
    | ifElse _ _ u => cases u <;> cases h
    | _ => cases h
  | .ifElse e s none =>
    cases s' with
    | ifElse e' s' u' =>
      cases u' with
      | none =>
        obtain ⟨he, hs, -⟩ := Stmt.ifElse.inj h
        rw [Stmt.numbers, Stmt.numbers, List.map_append] at hnumbers
        obtain ⟨hne, hns⟩ := List.append_inj hnumbers (Expr.length_numbers he)
        rw [Stmt.relabel, ← Expr.eq_relabel he hne, ← Stmt.eq_relabel hs hns]
      | some u' => cases (Stmt.ifElse.inj h).2.2
    | _ => cases h
  | .ifElse e s (some u) =>
    cases s' with
    | ifElse e' s' u' =>
      cases u' with
      | none => cases (Stmt.ifElse.inj h).2.2
      | some u' =>
        obtain ⟨he, hs, hu⟩ := Stmt.ifElse.inj h
        rw [Stmt.numbers, Stmt.numbers, List.map_append, List.map_append] at hnumbers
        obtain ⟨hne, hnumbers⟩ := List.append_inj hnumbers (Expr.length_numbers he)
        obtain ⟨hns, hnu⟩ := List.append_inj hnumbers (Stmt.length_numbers hs)
        rw [Stmt.relabel, ← Expr.eq_relabel he hne, ← Stmt.eq_relabel hs hns,
          ← Stmt.eq_relabel (Option.some.inj hu) hnu]
    | _ => cases h
  | .loop e s =>
    cases s' with
    | loop e' s' =>
      obtain ⟨he, hs⟩ := Stmt.loop.inj h
      rw [Stmt.numbers, Stmt.numbers, List.map_append] at hnumbers
      obtain ⟨hne, hns⟩ := List.append_inj hnumbers (Expr.length_numbers he)
      rw [Stmt.relabel, ← Expr.eq_relabel he hne, ← Stmt.eq_relabel hs hns]
    | ifElse _ _ u => cases u <;> cases h
    | _ => cases h
  | .funDecl decl =>
    cases s' with
    | funDecl decl' =>
      exact congrArg Stmt.funDecl (FunctionDecl.eq_relabel (Stmt.funDecl.inj h) hnumbers)
    | ifElse _ _ u => cases u <;> cases h
    | _ => cases h
  | .ret keyword e =>
    cases s' with
    | ret keyword' e' =>
      obtain ⟨rfl, he⟩ := Stmt.ret.inj h
      exact congrArg (Stmt.ret keyword') (Expr.eq_map_relabel he hnumbers)
    | ifElse _ _ u => cases u <;> cases h
    | _ => cases h
  | .classDecl name e decls =>
    cases s' with
    | classDecl name' e' decls' =>
      obtain ⟨rfl, he, hdecls⟩ := Stmt.classDecl.inj h
      rw [Stmt.numbers, Stmt.numbers, List.map_append] at hnumbers
      obtain ⟨hne, hnd⟩ := List.append_inj hnumbers (Expr.length_numbersOf he)
      rw [Stmt.relabel, ← Expr.eq_map_relabel he hne, ← FunctionDecl.eq_relabelAll hdecls hnd]
    | ifElse _ _ u => cases u <;> cases h
    | _ => cases h

lemma Stmt.eq_relabelAll {ss ss' : List Stmt}
    (h : Stmt.unnumberedAll ss' = Stmt.unnumberedAll ss)
    (hnumbers : Stmt.numbersAll ss' = (Stmt.numbersAll ss).map number) :
    ss' = Stmt.relabelAll number (fun t => t) ss := by
  match ss with
  | [] =>
    cases ss' with
    | nil => rfl
    | cons => cases h
  | s :: ss =>
    cases ss' with
    | nil => cases h
    | cons s' ss' =>
      obtain ⟨hs, hss⟩ := List.cons.inj h
      rw [Stmt.numbersAll, Stmt.numbersAll, List.map_append] at hnumbers
      obtain ⟨hns, hnss⟩ := List.append_inj hnumbers (Stmt.length_numbers hs)
      rw [Stmt.relabelAll, ← Stmt.eq_relabel hs hns, ← Stmt.eq_relabelAll hss hnss]

lemma FunctionDecl.eq_relabel {decl decl' : FunctionDecl}
    (h : decl'.unnumbered = decl.unnumbered)
    (hnumbers : decl'.numbers = decl.numbers.map number) :
    decl' = decl.relabel number (fun t => t) := by
  match decl with
  | ⟨name, params, body⟩ =>
    obtain ⟨name', params', body'⟩ := decl'
    obtain ⟨rfl, hparams, hbody⟩ := FunctionDecl.mk.inj h
    rw [List.map_id', List.map_id'] at hparams
    rw [FunctionDecl.relabel, ← Stmt.eq_relabelAll hbody hnumbers, hparams, List.map_id']

lemma FunctionDecl.eq_relabelAll {decls decls' : List FunctionDecl}
    (h : FunctionDecl.unnumberedAll decls' = FunctionDecl.unnumberedAll decls)
    (hnumbers : FunctionDecl.numbersAll decls' = (FunctionDecl.numbersAll decls).map number) :
    decls' = FunctionDecl.relabelAll number (fun t => t) decls := by
  match decls with
  | [] =>
    cases decls' with
    | nil => rfl
    | cons => cases h
  | decl :: decls =>
    cases decls' with
    | nil => cases h
    | cons decl' decls' =>
      obtain ⟨hdecl, hdecls⟩ := List.cons.inj h
      rw [FunctionDecl.numbersAll, FunctionDecl.numbersAll, List.map_append] at hnumbers
      obtain ⟨hnd, hnds⟩ := List.append_inj hnumbers (FunctionDecl.length_numbers hdecl)
      rw [FunctionDecl.relabelAll, ← FunctionDecl.eq_relabel hdecl hnd,
        ← FunctionDecl.eq_relabelAll hdecls hnds]

end

end Shapes

/-! ### The change of numbers -/

/-- A one-to-one change of numbers that takes one list to another, if neither has a number twice. -/
lemma exists_injective_map {is js : List Nat} (his : is.Nodup) (hjs : js.Nodup)
    (hlen : js.length = is.length) :
    ∃ number : Nat → Nat, Function.Injective number ∧ js = is.map number := by
  -- Numbers outside of the first list are moved beyond all of the second one.
  obtain ⟨bound, hbound⟩ : ∃ bound, ∀ j ∈ js, j < bound :=
    ⟨js.max?.getD 0 + 1, fun j hj => Nat.lt_succ_of_le (List.le_max?_getD_of_mem hj)⟩
  let number (i : Nat) : Nat := if i ∈ is then js.getD (is.idxOf i) 0 else bound + i
  have hinside : ∀ i ∈ is, ∃ h : is.idxOf i < js.length, number i = js.get ⟨is.idxOf i, h⟩ := by
    intro i hi
    have hidx : is.idxOf i < js.length := by rw [hlen]; exact List.idxOf_lt_length_iff.mpr hi
    exact ⟨hidx, by simp [number, hi, hidx]⟩
  have hlow : ∀ i ∈ is, number i < bound := by
    intro i hi
    obtain ⟨h, heq⟩ := hinside i hi
    rw [heq]
    exact hbound _ (List.get_mem ..)
  have houtside : ∀ i ∉ is, number i = bound + i := fun i hi => by simp [number, hi]
  refine ⟨number, fun i j heq => ?_, ?_⟩
  · by_cases hi : i ∈ is <;> by_cases hj : j ∈ is
    · obtain ⟨h, hnumber⟩ := hinside i hi
      obtain ⟨h', hnumber'⟩ := hinside j hj
      rw [hnumber, hnumber'] at heq
      have hidx := congrArg Fin.val (hjs.injective_get heq)
      exact (List.idxOf_inj hi).mp hidx
    · have hlt := hlow i hi
      rw [heq, houtside j hj] at hlt
      omega
    · have hlt := hlow j hj
      rw [← heq, houtside i hi] at hlt
      omega
    · rw [houtside i hi, houtside j hj] at heq
      omega
  · refine List.ext_getElem (by simpa using hlen) fun n hn hn' => ?_
    have hn'' : n < is.length := by rwa [hlen] at hn
    obtain ⟨h, hnumber⟩ := hinside is[n] (List.getElem_mem hn'')
    simp only [List.getElem_map, hnumber, List.get_eq_getElem, his.idxOf_getElem]

/-- Trees of the same shape differ by a one-to-one change of numbers. -/
theorem Stmt.exists_relabelAll {ss ss' : List Stmt}
    (h : Stmt.unnumberedAll ss' = Stmt.unnumberedAll ss) (hnodup : (Stmt.numbersAll ss).Nodup)
    (hnodup' : (Stmt.numbersAll ss').Nodup) :
    ∃ number : ExprId → ExprId, Function.Injective number ∧
      ss' = Stmt.relabelAll number (fun t => t) ss := by
  have hlength : (Stmt.numbersAll ss').length = (Stmt.numbersAll ss).length := by
    have hlength := congrArg (fun ss => (Stmt.numbersAll ss).length) h
    simpa [Stmt.unnumberedAll, Stmt.numbersAll_relabelAll] using hlength
  obtain ⟨number, hnumber, hmap⟩ := exists_injective_map hnodup hnodup' hlength
  exact ⟨number, hnumber, Stmt.eq_relabelAll h hmap⟩

end GermanLox
