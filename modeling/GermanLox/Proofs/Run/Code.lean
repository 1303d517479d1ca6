import GermanLox.Scope.Resolver
import Mathlib.Logic.Equiv.Defs
import Mathlib.Logic.Function.Basic

/-!
# Code that behaves alike

Two programs of one shape, and the scopes around them. Between two runs the names of a scope may be
written differently; what a scope is for and how its names are written on the other side is its
label. References are alike if both are global and spelled the same, or if both have the same
distance and the name is ready in the scope that far out. An assignment may also come early, in the
initializer of the very variable that it sets.
-/

namespace GermanLox

/-- What a scope, and a frame of it, is for. -/
inductive Label where
  /-- Variables and parameters, with the other spelling of each name. -/
  | names (rename : Equiv.Perm String)
  /-- The receiver of a method. -/
  | receiver
  /-- The superclass of a class. -/
  | superclass

/-- How the names of a scope are written on the other side. -/
def Label.rename : Label → Equiv.Perm String
  | names ρ => ρ
  | receiver => Equiv.refl String
  | superclass => Equiv.refl String

/-- A scope with its names; those whose initializer is still open map to `false`. -/
structure Layer where
  label : Label
  names : String → Option Bool

namespace Layer

def empty (label : Label) : Layer :=
  ⟨label, fun _ => none⟩

def enter (name : String) (ready : Bool) (layer : Layer) : Layer :=
  { layer with names := Function.update layer.names name (some ready) }

/-- The scope around the methods of a class. -/
def receiver : Layer :=
  (empty .receiver).enter thisName true

/-- The scope around the methods of a class with a superclass, outside of the receiver's. -/
def superclass : Layer :=
  (empty .superclass).enter superName true

/-- The scope of a function with its parameters. -/
def ofParameters (rename : Equiv.Perm String) (params : List Token) : Layer :=
  ⟨.names rename, fun n => if n ∈ params.map Token.lexeme then some true else none⟩

end Layer

/-- The open local scopes, innermost first. -/
abbrev Layers := List Layer

namespace Layers

/-- Enters a name into the innermost scope. There is none at the top level. -/
def enter (name : String) (ready : Bool) : Layers → Layers
  | [] => []
  | layer :: outer => layer.enter name ready :: outer

/-- The other spelling of a name that is declared here. -/
def DeclaresAs (Γ : Layers) (name name' : String) : Prop :=
  match Γ with
  | [] => name' = name
  | layer :: _ => ∃ ρ, layer.label = .names ρ ∧ name' = ρ name

end Layers

/-- What is known of the tokens and distances of two programs. -/
structure Setting where
  tokens : Token → Token → Prop
  /-- The distance, or that there is none, of a reference on both sides. -/
  entry : ExprId → ExprId → Option Nat → Prop
  /-- The assignments in the initializer of the variable that they set. -/
  own : ExprId → Prop

/-- Tokens alike that are spelled the same. -/
def Setting.Spelled (σ : Setting) (t t' : Token) : Prop :=
  σ.tokens t t' ∧ t'.lexeme = t.lexeme

/-- References alike, where an unready name counts too if it is `early`. -/
inductive Refers (σ : Setting) (Γ : Layers) (early : Prop) (id id' : ExprId)
    (name name' : String) : Prop
  | global (hentry : σ.entry id id' none) (hname : name' = name)
  | bound {distance layer} (hentry : σ.entry id id' (some distance))
    (hlayer : Γ[distance]? = some layer)
    (hready : layer.names name = some true ∨ layer.names name = some false ∧ early)
    (hname : name' = layer.label.rename name)

mutual

inductive ExprLike (σ : Setting) : Layers → Expr → Expr → Prop
  | literal {Γ i i' value} : ExprLike σ Γ (.literal i value) (.literal i' value)
  | grouping {Γ i i' e e'} (he : ExprLike σ Γ e e') :
    ExprLike σ Γ (.grouping i e) (.grouping i' e')
  | unary {Γ i i' op t t' e e'} (ht : σ.Spelled t t') (he : ExprLike σ Γ e e') :
    ExprLike σ Γ (.unary i op t e) (.unary i' op t' e')
  | binary {Γ i i' op t t' l l' r r'} (ht : σ.Spelled t t') (hl : ExprLike σ Γ l l')
    (hr : ExprLike σ Γ r r') : ExprLike σ Γ (.binary i op t l r) (.binary i' op t' l' r')
  | logical {Γ i i' op t t' l l' r r'} (hl : ExprLike σ Γ l l') (hr : ExprLike σ Γ r r') :
    ExprLike σ Γ (.logical i op t l r) (.logical i' op t' l' r')
  | var {Γ i i' name name'} (ht : σ.tokens name name')
    (href : Refers σ Γ False i i' name.lexeme name'.lexeme) :
    ExprLike σ Γ (.var i name) (.var i' name')
  | assign {Γ i i' name name' e e'} (ht : σ.tokens name name')
    (href : Refers σ Γ (σ.own i) i i' name.lexeme name'.lexeme)
    (hthis : name.lexeme ≠ thisName) (hsuper : name.lexeme ≠ superName)
    (he : ExprLike σ Γ e e') : ExprLike σ Γ (.assign i name e) (.assign i' name' e')
  | call {Γ i i' e e' t t' es es'} (he : ExprLike σ Γ e e') (ht : σ.Spelled t t')
    (hes : ExprsLike σ Γ es es') : ExprLike σ Γ (.call i e t es) (.call i' e' t' es')
  | get {Γ i i' e e' name name'} (he : ExprLike σ Γ e e') (ht : σ.Spelled name name') :
    ExprLike σ Γ (.get i e name) (.get i' e' name')
  | set {Γ i i' o o' name name' e e'} (ho : ExprLike σ Γ o o') (ht : σ.Spelled name name')
    (he : ExprLike σ Γ e e') : ExprLike σ Γ (.set i o name e) (.set i' o' name' e')
  | this {Γ i i' t t' distance} (ht : t.lexeme = thisName) (ht' : t'.lexeme = thisName)
    (hentry : σ.entry i i' (some distance)) (hlayer : Γ[distance]? = some Layer.receiver) :
    ExprLike σ Γ (.this i t) (.this i' t')
  | super {Γ i i' t t' method method' distance} (ht : t.lexeme = superName)
    (hentry : σ.entry i i' (some (distance + 1)))
    (hlayer : Γ[distance + 1]? = some Layer.superclass)
    (hinner : Γ[distance]? = some Layer.receiver) (hmethod : σ.Spelled method method')
    (hnearest : ∀ j < distance, Γ[j]? ≠ some Layer.receiver) :
    ExprLike σ Γ (.super i t method) (.super i' t' method')

inductive ExprsLike (σ : Setting) : Layers → List Expr → List Expr → Prop
  | nil {Γ} : ExprsLike σ Γ [] []
  | cons {Γ e e' es es'} (he : ExprLike σ Γ e e') (hes : ExprsLike σ Γ es es') :
    ExprsLike σ Γ (e :: es) (e' :: es')

end

inductive OptionalLike (σ : Setting) (Γ : Layers) : Option Expr → Option Expr → Prop
  | none : OptionalLike σ Γ none none
  | some {e e'} (he : ExprLike σ Γ e e') : OptionalLike σ Γ (some e) (some e')

mutual

/-- Statements alike, inside of a function or not, with the scopes before and after them. -/
inductive StmtLike (σ : Setting) : Bool → Layers → Stmt → Stmt → Layers → Prop
  | expression {inside Γ e e'} (he : ExprLike σ Γ e e') :
    StmtLike σ inside Γ (.expression e) (.expression e') Γ
  | print {inside Γ e e'} (he : ExprLike σ Γ e e') :
    StmtLike σ inside Γ (.print e) (.print e') Γ
  | varDecl {inside Γ name name' e e'} (hname : Γ.DeclaresAs name.lexeme name'.lexeme)
    (he : OptionalLike σ (Γ.enter name.lexeme false) e e') :
    StmtLike σ inside Γ (.varDecl name e) (.varDecl name' e') (Γ.enter name.lexeme true)
  | block {inside Γ ρ body body'}
    (hbody : StmtsLike σ inside (Layer.empty (.names ρ) :: Γ) body body') :
    StmtLike σ inside Γ (.block body) (.block body') Γ
  | ifThen {inside Γ e e' s s'} (he : ExprLike σ Γ e e') (hs : StmtLike σ inside Γ s s' Γ) :
    StmtLike σ inside Γ (.ifElse e s none) (.ifElse e' s' none) Γ
  | ifElse {inside Γ e e' s s' r r'} (he : ExprLike σ Γ e e') (hs : StmtLike σ inside Γ s s' Γ)
    (hr : StmtLike σ inside Γ r r' Γ) :
    StmtLike σ inside Γ (.ifElse e s (some r)) (.ifElse e' s' (some r')) Γ
  | loop {inside Γ e e' s s'} (he : ExprLike σ Γ e e') (hs : StmtLike σ inside Γ s s' Γ) :
    StmtLike σ inside Γ (.loop e s) (.loop e' s') Γ
  | funDecl {inside Γ decl decl'} (hname : Γ.DeclaresAs decl.name.lexeme decl'.name.lexeme)
    (hdecl : FunctionLike σ (Γ.enter decl.name.lexeme true) decl decl') :
    StmtLike σ inside Γ (.funDecl decl) (.funDecl decl') (Γ.enter decl.name.lexeme true)
  | ret {Γ t t' e e'} (he : OptionalLike σ Γ e e') :
    StmtLike σ true Γ (.ret t e) (.ret t' e') Γ
  | classDecl {inside Γ name name' methods methods'} (ht : σ.Spelled name name')
    (hname : Γ.DeclaresAs name.lexeme name'.lexeme)
    (hmethods : FunctionsLike σ (Layer.receiver :: Γ.enter name.lexeme true) methods methods') :
    StmtLike σ inside Γ (.classDecl name none methods) (.classDecl name' none methods')
      (Γ.enter name.lexeme true)
  | subclassDecl {inside Γ name name' e e' methods methods'} (ht : σ.Spelled name name')
    (hname : Γ.DeclaresAs name.lexeme name'.lexeme) (he : ExprLike σ Γ e e')
    (hmethods : FunctionsLike σ (Layer.receiver :: Layer.superclass :: Γ.enter name.lexeme true)
      methods methods') :
    StmtLike σ inside Γ (.classDecl name (some e) methods) (.classDecl name' (some e') methods')
      (Γ.enter name.lexeme true)

inductive StmtsLike (σ : Setting) : Bool → Layers → List Stmt → List Stmt → Prop
  | nil {inside Γ} : StmtsLike σ inside Γ [] []
  | cons {inside Γ Γ₁ s s' ss ss'} (hs : StmtLike σ inside Γ s s' Γ₁)
    (hss : StmtsLike σ inside Γ₁ ss ss') : StmtsLike σ inside Γ (s :: ss) (s' :: ss')

/-- Functions alike in the scopes around them. -/
inductive FunctionLike (σ : Setting) : Layers → FunctionDecl → FunctionDecl → Prop
  | mk {Γ name name' params params' body body' ρ} (hname : name'.lexeme = name.lexeme)
    (hparams : params'.map Token.lexeme = params.map (ρ ∘ Token.lexeme))
    (hbody : StmtsLike σ true (Layer.ofParameters ρ params :: Γ) body body') :
    FunctionLike σ Γ ⟨name, params, body⟩ ⟨name', params', body'⟩

inductive FunctionsLike (σ : Setting) : Layers → List FunctionDecl → List FunctionDecl → Prop
  | nil {Γ} : FunctionsLike σ Γ [] []
  | cons {Γ decl decl' decls decls'} (hdecl : FunctionLike σ Γ decl decl')
    (hdecls : FunctionsLike σ Γ decls decls') :
    FunctionsLike σ Γ (decl :: decls) (decl' :: decls')

end

lemma FunctionLike.name_eq {σ Γ decl decl'} (h : FunctionLike σ Γ decl decl') :
    decl'.name.lexeme = decl.name.lexeme := by
  cases h with
  | mk hname => exact hname

/-- The scope of a function with its body. -/
lemma FunctionLike.body {σ Γ decl decl'} (h : FunctionLike σ Γ decl decl') :
    ∃ ρ : Equiv.Perm String,
      decl'.params.map Token.lexeme = (decl.params.map Token.lexeme).map ρ ∧
      StmtsLike σ true (Layer.ofParameters ρ decl.params :: Γ) decl.body decl'.body := by
  cases h with
  | mk _ hparams hbody => exact ⟨_, by rw [hparams, List.map_map], hbody⟩

lemma FunctionLike.arity_eq {σ Γ decl decl'} (h : FunctionLike σ Γ decl decl') :
    decl'.arity = decl.arity := by
  cases h with
  | mk _ hparams => simpa [FunctionDecl.arity] using congrArg List.length hparams

end GermanLox
