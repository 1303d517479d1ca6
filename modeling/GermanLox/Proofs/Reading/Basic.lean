import GermanLox.Stmt.Parser

/-!
# How tokens are read

The relations below say which stretch of tokens is read as which tree, how far the expression
numbers go while it is read (from `k` up to, but not with, `k'`) and what is noted on the way. They
hold what the parser does when it never fails, apart from its rooms and its look-ahead: a note is
left by an assignment to what takes none and by each entry past the limit of a list.

A statement dangles if a `sonst` after it would still belong to a `wenn` inside it.
-/

namespace GermanLox

/-- Whether an equals sign can follow: names and properties take a value. -/
def Expr.isTarget : Expr → Bool
  | .var .. => true
  | .get .. => true
  | _ => false

/-- The literal that a token stands for on its own. -/
def Literal.ofKind? : TokenKind → Option Literal
  | .keyword .falsch => some (.bool false)
  | .keyword .wahr => some (.bool true)
  | .keyword .nichts => some .nil
  | .number value => some (.number value)
  | .string value => some (.string value)
  | _ => none

/-- The levels of operators, each over the tighter ones behind it. -/
def Precedence.tower : List Precedence :=
  [.disjunction, .conjunction, .equality, .comparison, .term, .factor]

namespace Reading

def firstLine : List Token → Nat
  | [] => 0
  | t :: _ => t.line

/-- What is noted at an entry of a list that comes after `count` others. -/
def overlong (cause : SyntaxFault) (count : Nat) (ts : List Token) : List Diagnostic :=
  if Parser.maxEntries ≤ count then [.syntactic (firstLine ts) cause] else []

mutual

inductive Primary : Nat → List Token → Expr → Nat → List Diagnostic → Prop
  | literal {k t value} (h : Literal.ofKind? t.kind = some value) :
    Primary k [t] (.literal k value) (k + 1) []
  | super {k t dot method} (ht : t.isKeyword .super) (hdot : dot.isSymbol .dot)
    (hmethod : method.isIdentifier) : Primary k [t, dot, method] (.super k t method) (k + 1) []
  | this {k t} (ht : t.isKeyword .dies) : Primary k [t] (.this k t) (k + 1) []
  | var {k t} (ht : t.isIdentifier) : Primary k [t] (.var k t) (k + 1) []
  | grouping {k opening ts closing e k' ds} (hopening : opening.isSymbol .leftParen)
    (he : Expression k ts e k' ds) (hclosing : closing.isSymbol .rightParen) :
    Primary k (opening :: ts ++ [closing]) (.grouping k' e) (k' + 1) ds

/-- Calls and properties, grouped to the left. -/
inductive Call : Nat → List Token → Expr → Nat → List Diagnostic → Prop
  | primary {k ts e k' ds} (h : Primary k ts e k' ds) : Call k ts e k' ds
  | call {k ts e k₁ ds opening us arguments k₂ ds' closing} (hcallee : Call k ts e k₁ ds)
    (hopening : opening.isSymbol .leftParen) (hargs : Arguments k₁ us arguments k₂ ds')
    (hclosing : closing.isSymbol .rightParen) :
    Call k (ts ++ opening :: us ++ [closing]) (.call k₂ e closing arguments) (k₂ + 1) (ds ++ ds')
  | get {k ts e k' ds dot name} (hobject : Call k ts e k' ds) (hdot : dot.isSymbol .dot)
    (hname : name.isIdentifier) :
    Call k (ts ++ [dot, name]) (.get k' e name) (k' + 1) ds

inductive Arguments : Nat → List Token → List Expr → Nat → List Diagnostic → Prop
  | none {k} : Arguments k [] [] k []
  | some {k ts es k' ds} (h : Entries 0 k ts es k' ds) : Arguments k ts es k' ds

/-- Arguments divided by commas, with the number of those before them. -/
inductive Entries : Nat → Nat → List Token → List Expr → Nat → List Diagnostic → Prop
  | last {count k ts e k' ds} (he : Expression k ts e k' ds) :
    Entries count k ts [e] k' (overlong .tooManyArguments count ts ++ ds)
  | more {count k ts e k₁ ds comma us es k' ds'} (he : Expression k ts e k₁ ds)
    (hcomma : comma.isSymbol .comma) (hes : Entries (count + 1) k₁ us es k' ds') :
    Entries count k (ts ++ comma :: us) (e :: es) k'
      (overlong .tooManyArguments count ts ++ ds ++ ds')

inductive Unary : Nat → List Token → Expr → Nat → List Diagnostic → Prop
  | call {k ts e k' ds} (h : Call k ts e k' ds) : Unary k ts e k' ds
  | sign {k t op ts e k' ds} (hop : UnaryOp.ofKind? t.kind = some op)
    (he : Unary k ts e k' ds) : Unary k (t :: ts) (.unary k' op t e) (k' + 1) ds

/-- Operators of some levels, the loosest first, grouped to the left. -/
inductive Operation : List Precedence → Nat → List Token → Expr → Nat → List Diagnostic → Prop
  | unary {k ts e k' ds} (h : Unary k ts e k' ds) : Operation [] k ts e k' ds
  | operand {p ps k ts e k' ds} (h : Operation ps k ts e k' ds) : Operation (p :: ps) k ts e k' ds
  | apply {p ps k ts left k₁ ds t op us right k₂ ds'}
    (hleft : Operation (p :: ps) k ts left k₁ ds) (hop : Operator.at? p t = some op)
    (hright : Operation ps k₁ us right k₂ ds') :
    Operation (p :: ps) k (ts ++ t :: us) (op.apply k₂ t left right) (k₂ + 1) (ds ++ ds')

/-- Assignments, grouped to the right. The number of the target is used up. -/
inductive Expression : Nat → List Token → Expr → Nat → List Diagnostic → Prop
  | operation {k ts e k' ds} (h : Operation Precedence.tower k ts e k' ds) :
    Expression k ts e k' ds
  | assign {k ts i name k₁ ds sign us value k₂ ds'}
    (htarget : Operation Precedence.tower k ts (.var i name) k₁ ds) (hsign : sign.isSymbol .equal)
    (hvalue : Expression k₁ us value k₂ ds') :
    Expression k (ts ++ sign :: us) (.assign k₂ name value) (k₂ + 1) (ds ++ ds')
  | set {k ts i object name k₁ ds sign us value k₂ ds'}
    (htarget : Operation Precedence.tower k ts (.get i object name) k₁ ds)
    (hsign : sign.isSymbol .equal) (hvalue : Expression k₁ us value k₂ ds') :
    Expression k (ts ++ sign :: us) (.set k₂ object name value) (k₂ + 1) (ds ++ ds')
  | invalid {k ts target k₁ ds sign us value k₂ ds'}
    (htarget : Operation Precedence.tower k ts target k₁ ds) (hbad : target.isTarget = false)
    (hsign : sign.isSymbol .equal) (hvalue : Expression k₁ us value k₂ ds') :
    Expression k (ts ++ sign :: us) target k₂
      (ds ++ ds' ++ [.syntactic sign.line .invalidAssignmentTarget])

end

inductive Optional : Nat → List Token → Option Expr → Nat → List Diagnostic → Prop
  | none {k} : Optional k [] none k []
  | some {k ts e k' ds} (h : Expression k ts e k' ds) : Optional k ts (some e) k' ds

/-- Parameters divided by commas, with the number of those before them. -/
inductive Names : Nat → List Token → List Token → List Diagnostic → Prop
  | last {count t} (ht : t.isIdentifier) :
    Names count [t] [t] (overlong .tooManyParameters count [t])
  | more {count t comma us names ds} (ht : t.isIdentifier) (hcomma : comma.isSymbol .comma)
    (hnames : Names (count + 1) us names ds) :
    Names count (t :: comma :: us) (t :: names) (overlong .tooManyParameters count [t] ++ ds)

inductive Parameters : List Token → List Token → List Diagnostic → Prop
  | none : Parameters [] [] []
  | some {ts names ds} (h : Names 0 ts names ds) : Parameters ts names ds

/-- What follows the word `var`. -/
inductive Variable : Nat → List Token → Stmt → Nat → List Diagnostic → Prop
  | plain {k name semicolon} (hname : name.isIdentifier)
    (hsemicolon : semicolon.isSymbol .semicolon) :
    Variable k [name, semicolon] (.varDecl name none) k []
  | initialized {k name sign ts e k' ds semicolon} (hname : name.isIdentifier)
    (hsign : sign.isSymbol .equal) (he : Expression k ts e k' ds)
    (hsemicolon : semicolon.isSymbol .semicolon) :
    Variable k (name :: sign :: ts ++ [semicolon]) (.varDecl name (some e)) k' ds

inductive Initializer : Nat → List Token → Option Stmt → Nat → List Diagnostic → Prop
  | none {k semicolon} (h : semicolon.isSymbol .semicolon) : Initializer k [semicolon] none k []
  | varDecl {k keyword ts s k' ds} (hkeyword : keyword.isKeyword .var)
    (h : Variable k ts s k' ds) : Initializer k (keyword :: ts) (some s) k' ds
  | expression {k ts e k' ds semicolon} (he : Expression k ts e k' ds)
    (hsemicolon : semicolon.isSymbol .semicolon) :
    Initializer k (ts ++ [semicolon]) (some (.expression e)) k' ds

inductive Superclass : Nat → List Token → Option Expr → Nat → Prop
  | none {k} : Superclass k [] none k
  | some {k sign name} (hsign : sign.isSymbol .less) (hname : name.isIdentifier) :
    Superclass k [sign, name] (some (.var k name)) (k + 1)

/-- The condition of a counting loop, numbered after its body if it is left out. -/
def loopCondition (k : Nat) : Option Expr → Expr × Nat
  | none => (.literal k (.bool true), k + 1)
  | some e => (e, k)

/-- The body of a counting loop with its increment. -/
def loopBody (body : Stmt) : Option Expr → Stmt
  | none => body
  | some e => .block [body, .expression e]

/-- A counting loop with its initializer. -/
def loopBlock (loop : Stmt) : Option Stmt → Stmt
  | none => loop
  | some first => .block [first, loop]

mutual

/-- Statements; the first index tells whether they dangle. -/
inductive Statement : Bool → Nat → List Token → Stmt → Nat → List Diagnostic → Prop
  | expression {k ts e k' ds semicolon} (he : Expression k ts e k' ds)
    (hsemicolon : semicolon.isSymbol .semicolon) :
    Statement false k (ts ++ [semicolon]) (.expression e) k' ds
  | print {k keyword ts e k' ds semicolon} (hkeyword : keyword.isKeyword .drucke)
    (he : Expression k ts e k' ds) (hsemicolon : semicolon.isSymbol .semicolon) :
    Statement false k (keyword :: ts ++ [semicolon]) (.print e) k' ds
  | ret {k keyword ts value k' ds semicolon} (hkeyword : keyword.isKeyword .zurueckgeben)
    (hvalue : Optional k ts value k' ds) (hsemicolon : semicolon.isSymbol .semicolon) :
    Statement false k (keyword :: ts ++ [semicolon]) (.ret keyword value) k' ds
  | block {k opening ts body k' ds closing} (hopening : opening.isSymbol .leftBrace)
    (hbody : Declarations k ts body k' ds) (hclosing : closing.isSymbol .rightBrace) :
    Statement false k (opening :: ts ++ [closing]) (.block body) k' ds
  | loop {dangling k keyword opening ts e k₁ ds closing us body k' ds'}
    (hkeyword : keyword.isKeyword .waehrend) (hopening : opening.isSymbol .leftParen)
    (he : Expression k ts e k₁ ds) (hclosing : closing.isSymbol .rightParen)
    (hbody : Statement dangling k₁ us body k' ds') :
    Statement dangling k (keyword :: opening :: ts ++ closing :: us) (.loop e body) k' (ds ++ ds')
  | count {dangling k keyword opening ts₁ first k₁ ds₁ ts₂ condition k₂ ds₂ semicolon ts₃ increment
      k₃ ds₃ closing us body k₄ ds₄}
    (hkeyword : keyword.isKeyword .fuer) (hopening : opening.isSymbol .leftParen)
    (hfirst : Initializer k ts₁ first k₁ ds₁) (hcondition : Optional k₁ ts₂ condition k₂ ds₂)
    (hsemicolon : semicolon.isSymbol .semicolon) (hincrement : Optional k₂ ts₃ increment k₃ ds₃)
    (hclosing : closing.isSymbol .rightParen) (hbody : Statement dangling k₃ us body k₄ ds₄) :
    Statement dangling k (keyword :: opening :: ts₁ ++ ts₂ ++ semicolon :: ts₃ ++ closing :: us)
      (loopBlock (.loop (loopCondition k₄ condition).1 (loopBody body increment)) first)
      (loopCondition k₄ condition).2 (ds₁ ++ ds₂ ++ ds₃ ++ ds₄)
  | ifThen {dangling k keyword opening ts e k₁ ds closing us thenBranch k' ds'}
    (hkeyword : keyword.isKeyword .wenn) (hopening : opening.isSymbol .leftParen)
    (he : Expression k ts e k₁ ds) (hclosing : closing.isSymbol .rightParen)
    (hthen : Statement dangling k₁ us thenBranch k' ds') :
    Statement true k (keyword :: opening :: ts ++ closing :: us)
      (.ifElse e thenBranch none) k' (ds ++ ds')
  | ifElse {dangling k keyword opening ts e k₁ ds closing us thenBranch k₂ ds₂ other vs elseBranch
      k' ds₃}
    (hkeyword : keyword.isKeyword .wenn) (hopening : opening.isSymbol .leftParen)
    (he : Expression k ts e k₁ ds) (hclosing : closing.isSymbol .rightParen)
    (hthen : Statement false k₁ us thenBranch k₂ ds₂) (hother : other.isKeyword .sonst)
    (helse : Statement dangling k₂ vs elseBranch k' ds₃) :
    Statement dangling k (keyword :: opening :: ts ++ closing :: us ++ other :: vs)
      (.ifElse e thenBranch (some elseBranch)) k' (ds ++ ds₂ ++ ds₃)

/-- Declarations and statements. -/
inductive Declaration : Bool → Nat → List Token → Stmt → Nat → List Diagnostic → Prop
  | classDecl {k keyword name ts parent k₁ opening us methods k' ds closing}
    (hkeyword : keyword.isKeyword .klasse) (hname : name.isIdentifier)
    (hparent : Superclass k ts parent k₁) (hopening : opening.isSymbol .leftBrace)
    (hmethods : Functions k₁ us methods k' ds) (hclosing : closing.isSymbol .rightBrace) :
    Declaration false k (keyword :: name :: ts ++ opening :: us ++ [closing])
      (.classDecl name parent methods) k' ds
  | funDecl {k keyword ts decl k' ds} (hkeyword : keyword.isKeyword .funktion)
    (hdecl : Function k ts decl k' ds) : Declaration false k (keyword :: ts) (.funDecl decl) k' ds
  | varDecl {k keyword ts s k' ds} (hkeyword : keyword.isKeyword .var)
    (h : Variable k ts s k' ds) : Declaration false k (keyword :: ts) s k' ds
  | statement {dangling k ts s k' ds} (h : Statement dangling k ts s k' ds) :
    Declaration dangling k ts s k' ds

inductive Declarations : Nat → List Token → List Stmt → Nat → List Diagnostic → Prop
  | nil {k} : Declarations k [] [] k []
  | cons {dangling k ts s k₁ ds us ss k' ds'} (hs : Declaration dangling k ts s k₁ ds)
    (hss : Declarations k₁ us ss k' ds') : Declarations k (ts ++ us) (s :: ss) k' (ds ++ ds')

/-- A name, parameters and a body. -/
inductive Function : Nat → List Token → FunctionDecl → Nat → List Diagnostic → Prop
  | mk {k name opening ts params ds closing brace us body k' ds' closing'}
    (hname : name.isIdentifier) (hopening : opening.isSymbol .leftParen)
    (hparams : Parameters ts params ds) (hclosing : closing.isSymbol .rightParen)
    (hbrace : brace.isSymbol .leftBrace) (hbody : Declarations k us body k' ds')
    (hclosing' : closing'.isSymbol .rightBrace) :
    Function k (name :: opening :: ts ++ closing :: brace :: us ++ [closing'])
      ⟨name, params, body⟩ k' (ds ++ ds')

inductive Functions : Nat → List Token → List FunctionDecl → Nat → List Diagnostic → Prop
  | nil {k} : Functions k [] [] k []
  | cons {k ts decl k₁ ds us decls k' ds'} (hdecl : Function k ts decl k₁ ds)
    (hdecls : Functions k₁ us decls k' ds') :
    Functions k (ts ++ us) (decl :: decls) k' (ds ++ ds')

end

end Reading
end GermanLox
