import GermanLox.Proofs.Scope.Formed

/-!
# What no program may do

The rules on names, `zurückgeben`, `dies` and `super`, said of the tree alone. Every part of a
program that a rule is about is listed with the constructs around it, from the inside out, and a
rule looks at these constructs only. Parts are listed from the top down, but where a field is set,
the value comes before the object.
-/

namespace GermanLox

/-- What a local scope belongs to. -/
inductive ScopeKind where
  | block
  | function
  | method (name : Token)

/-- A construct around a part of a program. -/
inductive Construct where
  /-- A block, or a function with its parameters and its body, and what of it stands before the
  part. -/
  | scope (kind : ScopeKind) (params : List Token) (earlier : List Stmt)
  | classBody (superclass : Option Expr)
  | initializer (name : Token)

namespace Construct

/-- Whether it is a function or a method. -/
def isRoutine : Construct → Bool
  | scope .function _ _ => true
  | scope (.method _) _ _ => true
  | _ => false

def isClass : Construct → Bool
  | classBody _ => true
  | _ => false

/-- The names that were declared in a scope before the part. -/
def names : Construct → List String
  | scope _ params earlier => (params ++ earlier.filterMap Stmt.declared?).map Token.lexeme
  | _ => []

/-- The construct around what comes after a statement. -/
def past (s : Stmt) : Construct → Construct
  | scope kind params earlier => scope kind params (earlier ++ [s])
  | construct => construct

end Construct

/-- The constructs around a part of a program, from the inside out. -/
abbrev Surroundings := List Construct

def Surroundings.past (s : Stmt) : Surroundings → Surroundings
  | [] => []
  | construct :: outer => construct.past s :: outer

/-- What there are rules about. -/
inductive Part where
  | declaration (name : Token)
  | read (name : Token)
  | ret (keyword : Token) (hasValue : Bool)
  | this (keyword : Token)
  | super (keyword : Token)
  /-- The name of a class with the name of its superclass. -/
  | superclass (name parent : Token)

/-- The token to blame. -/
def Part.token : Part → Token
  | declaration name => name
  | read name => name
  | ret keyword _ => keyword
  | this keyword => keyword
  | super keyword => keyword
  | superclass _ parent => parent

/-- A part of a program with the constructs around it. -/
structure Site where
  part : Part
  around : Surroundings

mutual

def Expr.sites (around : Surroundings) : Expr → List Site
  | .literal .. => []
  | .grouping _ e => e.sites around
  | .unary _ _ _ e => e.sites around
  | .binary _ _ _ left right => left.sites around ++ right.sites around
  | .logical _ _ _ left right => left.sites around ++ right.sites around
  | .var _ name => [⟨.read name, around⟩]
  | .assign _ _ value => value.sites around
  | .call _ callee _ arguments => callee.sites around ++ Expr.sitesAll around arguments
  | .get _ object _ => object.sites around
  | .set _ object _ value => value.sites around ++ object.sites around
  | .this _ keyword => [⟨.this keyword, around⟩]
  | .super _ keyword _ => [⟨.super keyword, around⟩]

def Expr.sitesAll (around : Surroundings) : List Expr → List Site
  | [] => []
  | e :: es => e.sites around ++ Expr.sitesAll around es

end

def Expr.sitesOf (around : Surroundings) : Option Expr → List Site
  | none => []
  | some e => e.sites around

/-- The superclass of a class stands outside of the class. -/
def Expr.superclassSites (around : Surroundings) (name : Token) : Option Expr → List Site
  | some (.var _ parent) => [⟨.superclass name parent, around⟩, ⟨.read parent, around⟩]
  | e => Expr.sitesOf around e

/-- Parameters, each with those before it. -/
def parameterSites (around : Surroundings) (kind : ScopeKind) (before : List Token) :
    List Token → List Site
  | [] => []
  | t :: ts =>
    ⟨.declaration t, .scope kind before [] :: around⟩ ::
      parameterSites around kind (before ++ [t]) ts

mutual

def Stmt.sites (around : Surroundings) : Stmt → List Site
  | .expression e => e.sites around
  | .print e => e.sites around
  | .varDecl name initializer =>
    ⟨.declaration name, around⟩ :: Expr.sitesOf (.initializer name :: around) initializer
  | .block body => Stmt.sitesAll (.scope .block [] [] :: around) body
  | .ifElse condition thenBranch none => condition.sites around ++ thenBranch.sites around
  | .ifElse condition thenBranch (some elseBranch) =>
    condition.sites around ++ thenBranch.sites around ++ elseBranch.sites around
  | .loop condition body => condition.sites around ++ body.sites around
  | .funDecl decl => ⟨.declaration decl.name, around⟩ :: decl.sites around .function
  | .ret keyword value => ⟨.ret keyword value.isSome, around⟩ :: Expr.sitesOf around value
  | .classDecl name superclass methods =>
    ⟨.declaration name, around⟩ :: (Expr.superclassSites around name superclass ++
      FunctionDecl.methodSites (.classBody superclass :: around) methods)

/-- Statements, each with those before it. -/
def Stmt.sitesAll (around : Surroundings) : List Stmt → List Site
  | [] => []
  | s :: ss => s.sites around ++ Stmt.sitesAll (around.past s) ss

def FunctionDecl.sites (around : Surroundings) (kind : ScopeKind) : FunctionDecl → List Site
  | ⟨_, params, body⟩ =>
    parameterSites around kind [] params ++ Stmt.sitesAll (.scope kind params [] :: around) body

def FunctionDecl.methodSites (around : Surroundings) : List FunctionDecl → List Site
  | [] => []
  | decl :: decls => decl.sites around (.method decl.name) ++ FunctionDecl.methodSites around decls

end

namespace Site

/-- The rules that a part can break. -/
inductive Violates : Site → ScopeFault → Prop
  /-- A name is declared again in a local scope. -/
  | alreadyDeclared {name : Token} {scope : Construct} {outer : Surroundings}
    (hname : name.lexeme ∈ scope.names) :
    Violates ⟨.declaration name, scope :: outer⟩ .alreadyDeclared
  /-- A variable is read in the initializer of a local variable of that name. -/
  | readInOwnInitializer {name declared : Token} {around outer : Surroundings}
    (hinside : .initializer declared :: outer <:+ around) (hlocal : outer ≠ [])
    (hname : declared.lexeme = name.lexeme) :
    Violates ⟨.read name, around⟩ .readInOwnInitializer
  | returnAtTopLevel {keyword : Token} {hasValue : Bool} {around : Surroundings}
    (houtside : ∀ construct ∈ around, construct.isRoutine = false) :
    Violates ⟨.ret keyword hasValue, around⟩ .returnAtTopLevel
  /-- A value is returned where the innermost function is a method that sets up an instance. -/
  | returnValueFromInitializer {keyword name : Token} {around : Surroundings} {params : List Token}
    {earlier : List Stmt}
    (hinnermost : around.find? Construct.isRoutine = some (.scope (.method name) params earlier))
    (hname : name.lexeme = initializerName) :
    Violates ⟨.ret keyword true, around⟩ .returnValueFromInitializer
  | thisOutsideClass {keyword : Token} {around : Surroundings}
    (houtside : ∀ construct ∈ around, construct.isClass = false) :
    Violates ⟨.this keyword, around⟩ .thisOutsideClass
  | superOutsideClass {keyword : Token} {around : Surroundings}
    (houtside : ∀ construct ∈ around, construct.isClass = false) :
    Violates ⟨.super keyword, around⟩ .superOutsideClass
  | superWithoutSuperclass {keyword : Token} {around : Surroundings}
    (hinnermost : around.find? Construct.isClass = some (.classBody none)) :
    Violates ⟨.super keyword, around⟩ .superWithoutSuperclass
  | inheritsFromItself {name parent : Token} {around : Surroundings}
    (hname : parent.lexeme = name.lexeme) :
    Violates ⟨.superclass name parent, around⟩ .inheritsFromItself

end Site

/-- The names that were declared before a part in the scope that it stands in. -/
def Surroundings.names : Surroundings → List String
  | [] => []
  | construct :: _ => construct.names

/-- Whether a part stands in the initializer of a local variable of a name. -/
def Surroundings.initializes (name : String) : Surroundings → Bool
  | [] => false
  | .initializer declared :: outer =>
    (!outer.isEmpty && declared.lexeme = name) || Surroundings.initializes name outer
  | _ :: outer => Surroundings.initializes name outer

lemma Surroundings.initializes_iff {name : String} {around : Surroundings} :
    around.initializes name = true ↔ ∃ declared outer, .initializer declared :: outer <:+ around ∧
      outer ≠ [] ∧ declared.lexeme = name := by
  induction around with
  | nil => simp [initializes]
  | cons construct outer ih =>
    cases construct with
    | initializer declared =>
      simp only [initializes, Bool.or_eq_true, Bool.and_eq_true, Bool.not_eq_true',
        List.isEmpty_eq_false_iff, decide_eq_true_eq, ih, List.suffix_cons_iff]
      constructor
      · rintro (⟨houter, hname⟩ | ⟨other, rest, hsuffix, hrest⟩)
        · exact ⟨declared, outer, .inl rfl, houter, hname⟩
        · exact ⟨other, rest, .inr hsuffix, hrest⟩
      · rintro ⟨other, rest, heq | hsuffix, hrest⟩
        · cases heq
          exact .inl hrest
        · exact .inr ⟨other, rest, hsuffix, hrest⟩
    | scope => simpa [initializes, List.suffix_cons_iff] using ih
    | classBody => simpa [initializes, List.suffix_cons_iff] using ih

namespace Site

/-- The rule that a part breaks, if it breaks one. -/
def fault? : Site → Option ScopeFault
  | ⟨.declaration name, around⟩ =>
    if name.lexeme ∈ around.names then some .alreadyDeclared else none
  | ⟨.read name, around⟩ =>
    if around.initializes name.lexeme then some .readInOwnInitializer else none
  | ⟨.ret _ hasValue, around⟩ =>
    match around.find? Construct.isRoutine with
    | none => some .returnAtTopLevel
    | some (.scope (.method name) _ _) =>
      if hasValue ∧ name.lexeme = initializerName then some .returnValueFromInitializer else none
    | some _ => none
  | ⟨.this _, around⟩ =>
    match around.find? Construct.isClass with
    | none => some .thisOutsideClass
    | some _ => none
  | ⟨.super _, around⟩ =>
    match around.find? Construct.isClass with
    | none => some .superOutsideClass
    | some (.classBody none) => some .superWithoutSuperclass
    | some _ => none
  | ⟨.superclass name parent, _⟩ =>
    if parent.lexeme = name.lexeme then some .inheritsFromItself else none

lemma fault?_of_violates {site : Site} {fault : ScopeFault} (h : site.Violates fault) :
    site.fault? = some fault := by
  cases h with
  | alreadyDeclared hname => simp [fault?, Surroundings.names, hname]
  | readInOwnInitializer hinside hlocal hname =>
    have hinitializes := Surroundings.initializes_iff.mpr ⟨_, _, hinside, hlocal, hname⟩
    simp [fault?, hinitializes]
  | @returnAtTopLevel _ _ around houtside =>
    have hnone : around.find? Construct.isRoutine = none := by simpa using houtside
    simp [fault?, hnone]
  | returnValueFromInitializer hinnermost hname => simp [fault?, hinnermost, hname]
  | @thisOutsideClass _ around houtside =>
    have hnone : around.find? Construct.isClass = none := by simpa using houtside
    simp [fault?, hnone]
  | @superOutsideClass _ around houtside =>
    have hnone : around.find? Construct.isClass = none := by simpa using houtside
    simp [fault?, hnone]
  | superWithoutSuperclass hinnermost => simp [fault?, hinnermost]
  | inheritsFromItself hname => simp [fault?, hname]

lemma violates_of_fault? {site : Site} {fault : ScopeFault} (h : site.fault? = some fault) :
    site.Violates fault := by
  obtain ⟨part, around⟩ := site
  cases part with
  | declaration name =>
    cases around with
    | nil => simp [fault?, Surroundings.names] at h
    | cons scope outer =>
      simp only [fault?, Option.ite_none_right_eq_some, Option.some.injEq] at h
      obtain ⟨hname, rfl⟩ := h
      exact .alreadyDeclared hname
  | read name =>
    simp only [fault?, Option.ite_none_right_eq_some, Option.some.injEq] at h
    obtain ⟨hinitializes, rfl⟩ := h
    obtain ⟨declared, outer, hinside, hlocal, hname⟩ := Surroundings.initializes_iff.mp hinitializes
    exact .readInOwnInitializer hinside hlocal hname
  | ret keyword hasValue =>
    simp only [fault?] at h
    split at h
    · rename_i hnone
      cases h
      exact .returnAtTopLevel (by simpa using hnone)
    · rename_i name params earlier hinnermost
      simp only [Option.ite_none_right_eq_some, Option.some.injEq] at h
      obtain ⟨⟨rfl, hname⟩, rfl⟩ := h
      exact .returnValueFromInitializer hinnermost hname
    · cases h
  | this keyword =>
    simp only [fault?] at h
    split at h
    · rename_i hnone
      cases h
      exact .thisOutsideClass (by simpa using hnone)
    · cases h
  | super keyword =>
    simp only [fault?] at h
    split at h
    · rename_i hnone
      cases h
      exact .superOutsideClass (by simpa using hnone)
    · rename_i hinnermost
      cases h
      exact .superWithoutSuperclass hinnermost
    · cases h
  | superclass name parent =>
    simp only [fault?, Option.ite_none_right_eq_some, Option.some.injEq] at h
    obtain ⟨hname, rfl⟩ := h
    exact .inheritsFromItself hname

/-- A part breaks at most one rule, and which one can be told. -/
theorem fault?_eq_some_iff {site : Site} {fault : ScopeFault} :
    site.fault? = some fault ↔ site.Violates fault :=
  ⟨violates_of_fault?, fault?_of_violates⟩

/-- Whether a part breaks a rule. -/
def IsViolation (site : Site) : Prop :=
  ∃ fault, site.Violates fault

lemma isSome_fault?_iff {site : Site} : site.fault?.isSome = true ↔ site.IsViolation := by
  simp only [Option.isSome_iff_exists, fault?_eq_some_iff, IsViolation]

instance (site : Site) : Decidable site.IsViolation :=
  decidable_of_iff _ isSome_fault?_iff

/-- A diagnostic that names the rule and the token to blame. -/
def Reported (site : Site) (diagnostic : Diagnostic) : Prop :=
  ∃ fault, site.Violates fault ∧ diagnostic = .scoping site.part.token fault

/-- The diagnostic for a part, if it breaks a rule. -/
def diagnostic? (site : Site) : Option Diagnostic :=
  site.fault?.map (.scoping site.part.token)

/-- One diagnostic for each part that breaks a rule. -/
lemma forall₂_reported (sites : List Site) :
    List.Forall₂ Reported (sites.filter (·.IsViolation)) (sites.filterMap diagnostic?) := by
  induction sites with
  | nil => exact .nil
  | cons site sites ih =>
    cases hfault : site.fault? with
    | none =>
      have hnot : ¬ site.IsViolation := by simp [← isSome_fault?_iff, hfault]
      rw [List.filter_cons_of_neg (by simpa using hnot),
        List.filterMap_cons_none (by simp [diagnostic?, hfault])]
      exact ih
    | some fault =>
      have hviolates := fault?_eq_some_iff.mp hfault
      have hviolation : site.IsViolation := ⟨fault, hviolates⟩
      rw [List.filter_cons_of_pos (by simpa using hviolation),
        List.filterMap_cons_some (by rw [diagnostic?, hfault, Option.map_some])]
      exact .cons ⟨fault, hviolates, rfl⟩ ih

end Site

end GermanLox
