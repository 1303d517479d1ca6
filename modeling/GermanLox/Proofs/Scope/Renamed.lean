import GermanLox.Proofs.Scope.Lockstep.Programs
import GermanLox.Proofs.Source.Respelled

/-!
# A renamed variable

A local variable or parameter gets another name, in its declaration and in all that stands for it.
The tokens of a program are told apart by their places, so that exactly these are written anew.
-/

namespace GermanLox

/-- All that stands for a variable is a name. -/
def Named (os : List (Token × Option Token)) : Prop :=
  ∀ o ∈ os, o.2.isSome → o.1.IsName

namespace Named

variable {os us : List (Token × Option Token)} {t : Token}

lemma nil : Named [] :=
  fun _ h => nomatch h

lemma append (h : Named os) (h' : Named us) : Named (os ++ us) :=
  fun o ho => (List.mem_append.mp ho).elim (h o) (h' o)

lemma cons_none (t : Token) (h : Named os) : Named ((t, none) :: os) :=
  List.forall_mem_cons.mpr ⟨fun ht => absurd ht Bool.false_ne_true, h⟩

lemma cons_name (ht : t.IsName) (q : Option Token) (h : Named os) : Named ((t, q) :: os) :=
  List.forall_mem_cons.mpr ⟨fun _ => ht, h⟩

end Named

mutual

lemma Expr.named_occurrences (env : Bindings) (e : Expr) (h : e.Formed) :
    Named (e.occurrences env) := by
  match e with
  | .literal .. => exact .nil
  | .grouping _ e => exact e.named_occurrences env h
  | .unary _ _ t e => exact (e.named_occurrences env h).cons_none t
  | .binary _ _ t l r =>
    exact ((l.named_occurrences env h.1).append (r.named_occurrences env h.2)).cons_none t
  | .logical _ _ t l r =>
    exact ((l.named_occurrences env h.1).append (r.named_occurrences env h.2)).cons_none t
  | .var _ name => exact .cons_name h _ .nil
  | .assign _ name e => exact (e.named_occurrences env h.2).cons_name h.1 _
  | .call _ e t es =>
    exact ((e.named_occurrences env h.1).append (Expr.named_occurrencesAll env es h.2)).cons_none t
  | .get _ e t => exact (e.named_occurrences env h).cons_none t
  | .set _ e t v =>
    exact ((e.named_occurrences env h.1).append (v.named_occurrences env h.2)).cons_none t
  | .this _ t => exact .cons_none t .nil
  | .super _ t u => exact .cons_none t (.cons_none u .nil)

lemma Expr.named_occurrencesAll (env : Bindings) (es : List Expr) (h : Expr.FormedAll es) :
    Named (Expr.occurrencesAll env es) := by
  match es with
  | [] => exact .nil
  | e :: es => exact (e.named_occurrences env h.1).append (Expr.named_occurrencesAll env es h.2)

end

lemma Expr.named_occurrencesOf (env : Bindings) (e : Option Expr) (h : Expr.FormedOf e) :
    Named (Expr.occurrencesOf env e) := by
  cases e with
  | none => exact .nil
  | some e => exact e.named_occurrences env h

mutual

lemma Stmt.named_occurrences (inner : Bool) (env : Bindings) (s : Stmt) (h : s.Formed) :
    Named (s.occurrences inner env) := by
  match s with
  | .expression e => exact e.named_occurrences env h
  | .print e => exact e.named_occurrences env h
  | .varDecl name e => exact (Expr.named_occurrencesOf _ e h.2).cons_name h.1 _
  | .block body => exact Stmt.named_occurrencesAll true env body h
  | .ifElse e s none =>
    exact (e.named_occurrences env h.1).append (s.named_occurrences inner env h.2.1)
  | .ifElse e s (some u) =>
    exact (e.named_occurrences env h.1).append
      ((s.named_occurrences inner env h.2.1.1).append (u.named_occurrences inner env h.2.2.1))
  | .loop e s => exact (e.named_occurrences env h.1).append (s.named_occurrences inner env h.2.1)
  | .funDecl decl => exact decl.named_occurrences _ h.2
  | .ret t e => exact (Expr.named_occurrencesOf env e h).cons_none t
  | .classDecl name e decls =>
    exact ((Expr.named_occurrencesOf _ e h.2.1.1).append
      (FunctionDecl.named_occurrencesAll _ decls h.2.2)).cons_none name

lemma Stmt.named_occurrencesAll (inner : Bool) (env : Bindings) (ss : List Stmt)
    (h : Stmt.FormedAll ss) : Named (Stmt.occurrencesAll inner env ss) := by
  match ss with
  | [] => exact .nil
  | s :: ss =>
    exact (s.named_occurrences inner env h.1).append (Stmt.named_occurrencesAll inner _ ss h.2)

lemma FunctionDecl.named_occurrences (env : Bindings) (decl : FunctionDecl) (h : decl.Formed) :
    Named (decl.occurrences env) := by
  match decl with
  | ⟨name, params, body⟩ =>
    have hparams : Named (params.map fun t => (t, some t)) := by
      intro o ho _
      obtain ⟨t, ht, rfl⟩ := List.mem_map.mp ho
      exact h.1 t ht
    exact (hparams.append (Stmt.named_occurrencesAll true _ body h.2)).cons_none name

lemma FunctionDecl.named_occurrencesAll (env : Bindings) (decls : List FunctionDecl)
    (h : FunctionDecl.FormedAll decls) : Named (FunctionDecl.occurrencesAll env decls) := by
  match decls with
  | [] => exact .nil
  | decl :: decls =>
    exact (decl.named_occurrences env h.1).append (FunctionDecl.named_occurrencesAll env decls h.2)

end

/-- Whether the name in a place stands for the variable that a token declares. -/
def Stmt.standsFor (program : List Stmt) (x : Token) (place : Nat) : Bool :=
  (Stmt.occurrencesAll false Bindings.none program).any fun o =>
    o.1.line = place && o.2 = some x

lemma Stmt.standsFor_iff {program : List Stmt} {x : Token} {place : Nat} :
    Stmt.standsFor program x place = true ↔
      ∃ t, t.line = place ∧ (t, some x) ∈ Stmt.occurrencesAll false Bindings.none program := by
  simp only [Stmt.standsFor, List.any_eq_true, Bool.and_eq_true, decide_eq_true_eq]
  constructor
  · rintro ⟨⟨t, q⟩, ho, hline, rfl⟩
    exact ⟨t, hline, ho⟩
  · rintro ⟨t, hline, ho⟩
    exact ⟨(t, some x), ho, hline, rfl⟩

/-- A source in which a variable of its program, read with places for lines, has another name. -/
def Source.rename (source : String) (tree : List Stmt) (x : Token) (name : List Char) : String :=
  Source.respell source (Stmt.standsFor tree x) name

namespace Respelling

/-- The variable that a token declares is renamed; the tokens on both sides are those on the lines
of the source. -/
def rename (source : String) (tree : List Stmt) (x : Token) (name : List Char) : Respelling where
  left := Source.onLine source
  right := Fragment.written (Stmt.standsFor tree x) name (Source.lineOf source)
  number := id
  counts _ := True
  chosen d := d = x
  old := x.lexeme
  new := String.ofList name

variable {source : String} {tree : List Stmt} {x : Token} {name : List Char} {k k' : ExprId}

lemma proper_rename (hx : x.IsName) (hname : IsName name) (hne : x.lexeme ≠ String.ofList name) :
    (rename source tree x name).Proper where
  injective := Function.injective_id
  spelled := by
    rintro d rfl
    rfl
  ne := hne
  old_this := hx.ne_this
  old_super := hx.ne_super
  new_this := hname.free .dies
  new_super := hname.free .super

/-- No two tokens stand in one place, so that only what stands for the variable is written anew. -/
lemma covers_rename (hread : Reading.Declarations k (Source.placed source) tree k' [])
    (hfresh : ∀ t ∈ Source.placed source, t.lexeme ≠ String.ofList name) :
    ∀ o ∈ Stmt.occurrencesAll false Bindings.none tree, (rename source tree x name).Covers o := by
  have hlines := Source.nodup_lines_placed source
  have hnodup : ((Stmt.occurrencesAll false Bindings.none tree).map Prod.fst).Nodup := by
    rw [Stmt.map_fst_occurrencesAll]
    exact hread.account.nodup_tokens hlines.of_map
  have hmem : ∀ o ∈ Stmt.occurrencesAll false Bindings.none tree, o.1 ∈ Source.placed source :=
    fun o ho => hread.account.mem_tokens (Stmt.mem_tokensAll_of_occurrence ho)
  rintro ⟨t, q⟩ ho
  refine ⟨rfl, hfresh t (hmem _ ho), ?_, ?_⟩
  · rintro ⟨d, rfl, rfl⟩
    exact if_pos (Stmt.standsFor_iff.mpr ⟨t, rfl, ho⟩)
  · intro hkept
    refine if_neg fun hplace => hkept ?_
    obtain ⟨u, hu, ho'⟩ := Stmt.standsFor_iff.mp hplace
    obtain rfl : u = t := List.inj_on_of_nodup_map hlines (hmem _ ho') (hmem _ ho) hu
    exact ⟨x, congrArg Prod.snd (List.inj_on_of_nodup_map hnodup ho ho' rfl), rfl⟩

end Respelling

end GermanLox
