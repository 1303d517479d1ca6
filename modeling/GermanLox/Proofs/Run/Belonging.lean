import GermanLox.Proofs.Reading.Contents
import GermanLox.Proofs.Run.Objects
import GermanLox.Proofs.Scope.Formed

/-!
# Code of a session

The innermost class declaration around an expression, and the method of it that the expression
stands in, are its home. Code belongs to a session if its references line up with the scopes around
it, its names are proper names, and its expressions have the homes that are known of them; what
belongs to a session does so part by part.
-/

namespace GermanLox

structure ClassDecl where
  name : Token
  superclass : Option Expr
  methods : List FunctionDecl

namespace ClassDecl

def stmt (K : ClassDecl) : Stmt :=
  .classDecl K.name K.superclass K.methods

/-- The last declaration of a method. -/
def method? (K : ClassDecl) (name : String) : Option FunctionDecl :=
  K.methods.reverse.find? fun decl => decl.name.lexeme = name

end ClassDecl

/-- A class declaration with one of its methods. -/
structure Home where
  decl : ClassDecl
  method : FunctionDecl

mutual

/-- The numbers of all expressions with their homes, in a place that has the given one. The
superclass of a class does not stand in the class. -/
def Stmt.homes (home : Option Home) : Stmt → List (ExprId × Option Home)
  | .expression e => e.numbers.map (·, home)
  | .print e => e.numbers.map (·, home)
  | .varDecl _ initializer => (Expr.numbersOf initializer).map (·, home)
  | .block body => Stmt.homesAll home body
  | .ifElse condition thenBranch none =>
    condition.numbers.map (·, home) ++ thenBranch.homes home
  | .ifElse condition thenBranch (some elseBranch) =>
    condition.numbers.map (·, home) ++ (thenBranch.homes home ++ elseBranch.homes home)
  | .loop condition body => condition.numbers.map (·, home) ++ body.homes home
  | .funDecl decl => decl.homes home
  | .ret _ value => (Expr.numbersOf value).map (·, home)
  | .classDecl name superclass methods =>
    (Expr.numbersOf superclass).map (·, home) ++
      FunctionDecl.homesIn ⟨name, superclass, methods⟩ methods

def Stmt.homesAll (home : Option Home) : List Stmt → List (ExprId × Option Home)
  | [] => []
  | s :: ss => s.homes home ++ Stmt.homesAll home ss

def FunctionDecl.homes (home : Option Home) : FunctionDecl → List (ExprId × Option Home)
  | ⟨_, _, body⟩ => Stmt.homesAll home body

/-- Each method of a class is a home of its own. -/
def FunctionDecl.homesIn (K : ClassDecl) : List FunctionDecl → List (ExprId × Option Home)
  | [] => []
  | decl :: decls => decl.homes (some ⟨K, decl⟩) ++ FunctionDecl.homesIn K decls

end

private lemma map_fst_pairs (home : Option Home) (is : List ExprId) :
    (is.map (·, home)).map Prod.fst = is := by
  rw [List.map_map]
  exact List.map_id is

mutual

/-- Every expression has one home. -/
theorem Stmt.map_fst_homes (home : Option Home) (s : Stmt) :
    (s.homes home).map Prod.fst = s.numbers := by
  cases s with
  | expression e => exact map_fst_pairs home _
  | print e => exact map_fst_pairs home _
  | varDecl name o => exact map_fst_pairs home _
  | block body => exact Stmt.map_fst_homesAll home body
  | ifElse e s o =>
    cases o with
    | none =>
      simp only [Stmt.homes, Stmt.numbers, List.map_append, map_fst_pairs,
        Stmt.map_fst_homes home s]
    | some u =>
      simp only [Stmt.homes, Stmt.numbers, List.map_append, map_fst_pairs,
        Stmt.map_fst_homes home s, Stmt.map_fst_homes home u]
  | loop e s =>
    simp only [Stmt.homes, Stmt.numbers, List.map_append, map_fst_pairs, Stmt.map_fst_homes home s]
  | funDecl decl => exact FunctionDecl.map_fst_homes home decl
  | ret t o => exact map_fst_pairs home _
  | classDecl name o methods =>
    simp only [Stmt.homes, Stmt.numbers, List.map_append, map_fst_pairs,
      FunctionDecl.map_fst_homesIn _ methods]

theorem Stmt.map_fst_homesAll (home : Option Home) (ss : List Stmt) :
    (Stmt.homesAll home ss).map Prod.fst = Stmt.numbersAll ss := by
  cases ss with
  | nil => rfl
  | cons s ss =>
    simp only [Stmt.homesAll, Stmt.numbersAll, List.map_append, Stmt.map_fst_homes home s,
      Stmt.map_fst_homesAll home ss]

theorem FunctionDecl.map_fst_homes (home : Option Home) (decl : FunctionDecl) :
    (decl.homes home).map Prod.fst = decl.numbers := by
  obtain ⟨name, params, body⟩ := decl
  exact Stmt.map_fst_homesAll home body

theorem FunctionDecl.map_fst_homesIn (K : ClassDecl) (decls : List FunctionDecl) :
    (FunctionDecl.homesIn K decls).map Prod.fst = FunctionDecl.numbersAll decls := by
  cases decls with
  | nil => rfl
  | cons decl decls =>
    simp only [FunctionDecl.homesIn, FunctionDecl.numbersAll, List.map_append,
      FunctionDecl.map_fst_homes _ decl, FunctionDecl.map_fst_homesIn K decls]

end

/-- What is known of a session. -/
structure Chronicle where
  setting : Setting
  /-- Where the expressions of its programs stand. -/
  home : ExprId → Option Home → Prop
  /-- The classes that its declarations have made, each with its superclass. -/
  made : ClassDecl → Option Class → Class → Prop

/-- More is known later. -/
structure Chronicle.Fits (C C₁ : Chronicle) : Prop where
  setting : C.setting.Fits C₁.setting
  home : ∀ i home, C.home i home → C₁.home i home
  made : ∀ K parent c, C.made K parent c → C₁.made K parent c

namespace Chronicle.Fits

lemma refl (C : Chronicle) : C.Fits C :=
  ⟨.refl _, fun _ _ h => h, fun _ _ _ h => h⟩

lemma trans {C C₁ C₂ : Chronicle} (h : C.Fits C₁) (h₁ : C₁.Fits C₂) : C.Fits C₂ where
  setting := h.setting.trans h₁.setting
  home := fun i home hi => h₁.home i home (h.home i home hi)
  made := fun K parent c hc => h₁.made K parent c (h.made K parent c hc)

end Chronicle.Fits

structure Expr.Belongs (C : Chronicle) (Γ : Layers) (home : Option Home) (e : Expr) : Prop where
  like : ∃ σ : Setting, σ.Fits C.setting ∧ ExprLike σ Γ e e
  home : ∀ i ∈ e.numbers, C.home i home

structure Stmt.Belongs (C : Chronicle) (Γ : Layers) (home : Option Home) (s : Stmt)
    (Γ₁ : Layers) : Prop where
  like : ∃ (σ : Setting) (inside : Bool), σ.Fits C.setting ∧ StmtLike σ inside Γ s s Γ₁
  formed : s.Formed
  home : ∀ p ∈ s.homes home, C.home p.1 p.2

structure Stmt.BelongAll (C : Chronicle) (Γ : Layers) (home : Option Home) (ss : List Stmt) :
    Prop where
  like : ∃ (σ : Setting) (inside : Bool), σ.Fits C.setting ∧ StmtsLike σ inside Γ ss ss
  formed : Stmt.FormedAll ss
  home : ∀ p ∈ Stmt.homesAll home ss, C.home p.1 p.2

structure FunctionDecl.Belongs (C : Chronicle) (Γ : Layers) (home : Option Home)
    (decl : FunctionDecl) : Prop where
  like : ∃ σ : Setting, σ.Fits C.setting ∧ FunctionLike σ Γ decl decl
  formed : decl.Formed
  home : ∀ p ∈ decl.homes home, C.home p.1 p.2

variable {C C₁ : Chronicle} {Γ Γ₁ : Layers} {home : Option Home}

lemma FunctionDecl.Belongs.widen {decl : FunctionDecl} (h : decl.Belongs C Γ home)
    (hC : C.Fits C₁) : decl.Belongs C₁ Γ home := by
  obtain ⟨σ, hσ, hlike⟩ := h.like
  exact ⟨⟨σ, hσ.trans hC.setting, hlike⟩, h.formed, fun p hp => hC.home _ _ (h.home p hp)⟩

namespace Expr.Belongs

variable {i : ExprId} {t : Token} {e left right value : Expr}

lemma grouping (h : (Expr.grouping i e).Belongs C Γ home) : e.Belongs C Γ home := by
  obtain ⟨⟨σ, hσ, hlike⟩, hhome⟩ := h
  cases hlike with
  | grouping he => exact ⟨⟨σ, hσ, he⟩, fun j hj => hhome j (by simp [Expr.numbers, hj])⟩

lemma unary {op : UnaryOp} (h : (Expr.unary i op t e).Belongs C Γ home) : e.Belongs C Γ home := by
  obtain ⟨⟨σ, hσ, hlike⟩, hhome⟩ := h
  cases hlike with
  | unary _ he => exact ⟨⟨σ, hσ, he⟩, fun j hj => hhome j (by simp [Expr.numbers, hj])⟩

lemma binary {op : BinaryOp} (h : (Expr.binary i op t left right).Belongs C Γ home) :
    left.Belongs C Γ home ∧ right.Belongs C Γ home := by
  obtain ⟨⟨σ, hσ, hlike⟩, hhome⟩ := h
  cases hlike with
  | binary _ hl hr =>
    constructor
    · exact ⟨⟨σ, hσ, hl⟩, fun j hj => hhome j (by simp [Expr.numbers, hj])⟩
    · exact ⟨⟨σ, hσ, hr⟩, fun j hj => hhome j (by simp [Expr.numbers, hj])⟩

lemma logical {op : LogicalOp} (h : (Expr.logical i op t left right).Belongs C Γ home) :
    left.Belongs C Γ home ∧ right.Belongs C Γ home := by
  obtain ⟨⟨σ, hσ, hlike⟩, hhome⟩ := h
  cases hlike with
  | logical hl hr =>
    constructor
    · exact ⟨⟨σ, hσ, hl⟩, fun j hj => hhome j (by simp [Expr.numbers, hj])⟩
    · exact ⟨⟨σ, hσ, hr⟩, fun j hj => hhome j (by simp [Expr.numbers, hj])⟩

lemma assign (h : (Expr.assign i t value).Belongs C Γ home) : value.Belongs C Γ home := by
  obtain ⟨⟨σ, hσ, hlike⟩, hhome⟩ := h
  cases hlike with
  | assign _ _ _ _ he => exact ⟨⟨σ, hσ, he⟩, fun j hj => hhome j (by simp [Expr.numbers, hj])⟩

lemma of_exprsLike {σ : Setting} (hσ : σ.Fits C.setting) {es : List Expr}
    (hlike : ExprsLike σ Γ es es) (hhome : ∀ j ∈ Expr.numbersAll es, C.home j home) :
    ∀ e ∈ es, e.Belongs C Γ home := by
  induction es with
  | nil => simp
  | cons e es ih =>
    cases hlike with
    | cons he hes =>
      simp only [Expr.numbersAll, List.forall_mem_append] at hhome
      exact List.forall_mem_cons.mpr ⟨⟨⟨σ, hσ, he⟩, hhome.1⟩, ih hes hhome.2⟩

lemma call {es : List Expr} (h : (Expr.call i e t es).Belongs C Γ home) :
    e.Belongs C Γ home ∧ ∀ argument ∈ es, argument.Belongs C Γ home := by
  obtain ⟨⟨σ, hσ, hlike⟩, hhome⟩ := h
  cases hlike with
  | call he _ hes =>
    constructor
    · exact ⟨⟨σ, hσ, he⟩, fun j hj => hhome j (by simp [Expr.numbers, hj])⟩
    · exact of_exprsLike hσ hes fun j hj => hhome j (by simp [Expr.numbers, hj])

lemma get (h : (Expr.get i e t).Belongs C Γ home) : e.Belongs C Γ home := by
  obtain ⟨⟨σ, hσ, hlike⟩, hhome⟩ := h
  cases hlike with
  | get he => exact ⟨⟨σ, hσ, he⟩, fun j hj => hhome j (by simp [Expr.numbers, hj])⟩

lemma set (h : (Expr.set i e t value).Belongs C Γ home) :
    e.Belongs C Γ home ∧ value.Belongs C Γ home := by
  obtain ⟨⟨σ, hσ, hlike⟩, hhome⟩ := h
  cases hlike with
  | set ho _ he =>
    constructor
    · exact ⟨⟨σ, hσ, ho⟩, fun j hj => hhome j (by simp [Expr.numbers, hj])⟩
    · exact ⟨⟨σ, hσ, he⟩, fun j hj => hhome j (by simp [Expr.numbers, hj])⟩

lemma of_optionalLike {σ : Setting} (hσ : σ.Fits C.setting) {o : Option Expr}
    (hlike : OptionalLike σ Γ o o)
    (hhome : ∀ p ∈ (Expr.numbersOf o).map (·, home), C.home p.1 p.2) :
    ∀ e ∈ o, e.Belongs C Γ home := by
  rintro e rfl
  cases hlike with
  | some he => exact ⟨⟨σ, hσ, he⟩, fun j hj => hhome (j, home) (List.mem_map_of_mem hj)⟩

end Expr.Belongs

namespace Stmt.Belongs

variable {t : Token} {e : Expr} {s : Stmt}

lemma expression (h : (Stmt.expression e).Belongs C Γ home Γ₁) : e.Belongs C Γ home := by
  obtain ⟨⟨σ, inside, hσ, hlike⟩, -, hhome⟩ := h
  cases hlike with
  | expression he =>
    exact ⟨⟨σ, hσ, he⟩, fun j hj => hhome (j, home) (List.mem_map_of_mem hj)⟩

lemma print (h : (Stmt.print e).Belongs C Γ home Γ₁) : e.Belongs C Γ home := by
  obtain ⟨⟨σ, inside, hσ, hlike⟩, -, hhome⟩ := h
  cases hlike with
  | print he => exact ⟨⟨σ, hσ, he⟩, fun j hj => hhome (j, home) (List.mem_map_of_mem hj)⟩

lemma varDecl {o : Option Expr} (h : (Stmt.varDecl t o).Belongs C Γ home Γ₁) :
    t.IsName ∧ Γ.DeclaresAs t.lexeme t.lexeme ∧
      ∀ e ∈ o, e.Belongs C (Γ.enter t.lexeme false) home := by
  obtain ⟨⟨σ, inside, hσ, hlike⟩, hformed, hhome⟩ := h
  cases hlike with
  | varDecl hname he => exact ⟨hformed.1, hname, .of_optionalLike hσ he hhome⟩

lemma block {body : List Stmt} (h : (Stmt.block body).Belongs C Γ home Γ₁) :
    ∃ ρ, Stmt.BelongAll C (Layer.empty (.names ρ) :: Γ) home body := by
  obtain ⟨⟨σ, inside, hσ, hlike⟩, hformed, hhome⟩ := h
  cases hlike with
  | @block _ _ ρ _ _ hbody => exact ⟨ρ, ⟨σ, inside, hσ, hbody⟩, hformed, hhome⟩

lemma ifElse {other : Option Stmt} (h : (Stmt.ifElse e s other).Belongs C Γ home Γ₁) :
    e.Belongs C Γ home ∧ s.Belongs C Γ home Γ ∧ ∀ u ∈ other, u.Belongs C Γ home Γ := by
  obtain ⟨⟨σ, inside, hσ, hlike⟩, hformed, hhome⟩ := h
  cases hlike with
  | ifThen he hs =>
    simp only [Stmt.homes, List.forall_mem_append] at hhome
    refine ⟨⟨⟨σ, hσ, he⟩, fun j hj => hhome.1 (j, home) (List.mem_map_of_mem hj)⟩, ?_, by simp⟩
    exact ⟨⟨σ, inside, hσ, hs⟩, hformed.2.1, hhome.2⟩
  | ifElse he hs hr =>
    simp only [Stmt.homes, List.forall_mem_append] at hhome
    refine ⟨⟨⟨σ, hσ, he⟩, fun j hj => hhome.1 (j, home) (List.mem_map_of_mem hj)⟩, ?_, ?_⟩
    · exact ⟨⟨σ, inside, hσ, hs⟩, hformed.2.1.1, hhome.2.1⟩
    · rintro u hu
      obtain rfl := Option.some.inj hu
      exact ⟨⟨σ, inside, hσ, hr⟩, hformed.2.2.1, hhome.2.2⟩

lemma loop (h : (Stmt.loop e s).Belongs C Γ home Γ₁) :
    e.Belongs C Γ home ∧ s.Belongs C Γ home Γ := by
  obtain ⟨⟨σ, inside, hσ, hlike⟩, hformed, hhome⟩ := h
  cases hlike with
  | loop he hs =>
    simp only [Stmt.homes, List.forall_mem_append] at hhome
    constructor
    · exact ⟨⟨σ, hσ, he⟩, fun j hj => hhome.1 (j, home) (List.mem_map_of_mem hj)⟩
    · exact ⟨⟨σ, inside, hσ, hs⟩, hformed.2.1, hhome.2⟩

lemma funDecl {decl : FunctionDecl} (h : (Stmt.funDecl decl).Belongs C Γ home Γ₁) :
    decl.name.IsName ∧ Γ.DeclaresAs decl.name.lexeme decl.name.lexeme ∧
      decl.Belongs C (Γ.enter decl.name.lexeme true) home := by
  obtain ⟨⟨σ, inside, hσ, hlike⟩, hformed, hhome⟩ := h
  cases hlike with
  | funDecl hname hdecl => exact ⟨hformed.1, hname, ⟨σ, hσ, hdecl⟩, hformed.2, hhome⟩

lemma ret {o : Option Expr} (h : (Stmt.ret t o).Belongs C Γ home Γ₁) :
    ∀ e ∈ o, e.Belongs C Γ home := by
  obtain ⟨⟨σ, inside, hσ, hlike⟩, -, hhome⟩ := h
  cases hlike with
  | ret he => exact .of_optionalLike hσ he hhome

/-- The methods of a class, each at home in itself. -/
lemma methods {σ : Setting} (hσ : σ.Fits C.setting) (K : ClassDecl) {methods : List FunctionDecl}
    (hlike : FunctionsLike σ Γ methods methods) (hformed : FunctionDecl.FormedAll methods)
    (hhome : ∀ p ∈ FunctionDecl.homesIn K methods, C.home p.1 p.2) :
    ∀ decl ∈ methods, decl.Belongs C Γ (some ⟨K, decl⟩) := by
  induction methods with
  | nil => simp
  | cons decl decls ih =>
    cases hlike with
    | cons hdecl hdecls =>
      simp only [FunctionDecl.homesIn, List.forall_mem_append] at hhome
      exact List.forall_mem_cons.mpr
        ⟨⟨⟨σ, hσ, hdecl⟩, hformed.1, hhome.1⟩, ih hdecls hformed.2 hhome.2⟩

lemma classDecl {K : ClassDecl} (h : K.stmt.Belongs C Γ home Γ₁) :
    K.name.IsName ∧ Γ.DeclaresAs K.name.lexeme K.name.lexeme ∧
      (∀ e ∈ K.superclass, e.Belongs C Γ home) ∧
      ∀ decl ∈ K.methods, decl.Belongs C
        (Layer.receiver :: Layers.inherited K.superclass (Γ.enter K.name.lexeme true))
        (some ⟨K, decl⟩) := by
  obtain ⟨name, superclass, methods⟩ := K
  obtain ⟨⟨σ, inside, hσ, hlike⟩, hformed, hhome⟩ := h
  simp only [ClassDecl.stmt, Stmt.homes, List.forall_mem_append] at hlike hhome
  cases hlike with
  | classDecl _ hname hmethods =>
    exact ⟨hformed.1, hname, by simp, Belongs.methods hσ _ hmethods hformed.2.2 hhome.2⟩
  | subclassDecl _ hname he hmethods =>
    exact ⟨hformed.1, hname, .of_optionalLike hσ (.some he) hhome.1,
      Belongs.methods hσ _ hmethods hformed.2.2 hhome.2⟩

/-- A statement adds at most a name to the innermost scope. -/
lemma scopes_after (h : s.Belongs C Γ home Γ₁) :
    Γ₁ = Γ ∨ ∃ n n', Γ.DeclaresAs n n' ∧ Γ₁ = Γ.enter n true := by
  obtain ⟨⟨σ, inside, hσ, hlike⟩, -, -⟩ := h
  cases hlike with
  | varDecl hname => exact .inr ⟨_, _, hname, rfl⟩
  | funDecl hname => exact .inr ⟨_, _, hname, rfl⟩
  | classDecl _ hname => exact .inr ⟨_, _, hname, rfl⟩
  | subclassDecl _ hname => exact .inr ⟨_, _, hname, rfl⟩
  | _ => exact .inl rfl

end Stmt.Belongs

lemma Stmt.BelongAll.cons {s : Stmt} {ss : List Stmt} (h : Stmt.BelongAll C Γ home (s :: ss)) :
    ∃ Γ₁, s.Belongs C Γ home Γ₁ ∧ Stmt.BelongAll C Γ₁ home ss := by
  obtain ⟨⟨σ, inside, hσ, hlike⟩, hformed, hhome⟩ := h
  simp only [Stmt.homesAll, List.forall_mem_append] at hhome
  cases hlike with
  | @cons _ _ Γ₁ _ _ _ _ hs hss =>
    exact ⟨Γ₁, ⟨⟨σ, inside, hσ, hs⟩, hformed.1, hhome.1⟩, ⟨σ, inside, hσ, hss⟩, hformed.2,
      hhome.2⟩

/-- The body of a function in the scope of its parameters. -/
lemma FunctionDecl.Belongs.body {decl : FunctionDecl} (h : decl.Belongs C Γ home) :
    (∀ t ∈ decl.params, t.IsName) ∧
      ∃ ρ, Stmt.BelongAll C (Layer.ofParameters ρ decl.params :: Γ) home decl.body := by
  obtain ⟨name, params, body⟩ := decl
  obtain ⟨⟨σ, hσ, hlike⟩, hformed, hhome⟩ := h
  obtain ⟨ρ, -, hbody⟩ := hlike.body
  exact ⟨hformed.1, ρ, ⟨σ, true, hσ, hbody⟩, hformed.2, hhome⟩

end GermanLox
