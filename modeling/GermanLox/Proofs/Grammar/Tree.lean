import GermanLox.Proofs.Reading.Programs
import GermanLox.Proofs.Relabel

/-!
# The trees of the grammar

Which tree a list of tokens prescribes. Operators of one level and the suffixes of a call group to
the left, assignments and signs to the right; a `sonst` belongs to the nearest `wenn` that can still
take one; a counting loop stands for its translation. Expression numbers are left open: a tree of a
list of tokens stays one whatever its numbers are.
-/

namespace GermanLox
namespace Tree

/-- The signs of each level of operators, and the nodes that they make of their operands. -/
inductive Sign : Precedence → Token → (ExprId → Expr → Expr → Expr) → Prop
  | or {t} (ht : t.isKeyword .oder) : Sign .disjunction t (.logical · .or t)
  | and {t} (ht : t.isKeyword .und) : Sign .conjunction t (.logical · .and t)
  | notEqual {t} (ht : t.isSymbol .bangEqual) : Sign .equality t (.binary · .notEqual t)
  | equal {t} (ht : t.isSymbol .equalEqual) : Sign .equality t (.binary · .equal t)
  | greater {t} (ht : t.isSymbol .greater) : Sign .comparison t (.binary · .greater t)
  | greaterEqual {t} (ht : t.isSymbol .greaterEqual) :
    Sign .comparison t (.binary · .greaterEqual t)
  | less {t} (ht : t.isSymbol .less) : Sign .comparison t (.binary · .less t)
  | lessEqual {t} (ht : t.isSymbol .lessEqual) : Sign .comparison t (.binary · .lessEqual t)
  | subtract {t} (ht : t.isSymbol .minus) : Sign .term t (.binary · .subtract t)
  | add {t} (ht : t.isSymbol .plus) : Sign .term t (.binary · .add t)
  | divide {t} (ht : t.isSymbol .slash) : Sign .factor t (.binary · .divide t)
  | multiply {t} (ht : t.isSymbol .star) : Sign .factor t (.binary · .multiply t)

mutual

inductive Primary : List Token → Expr → Prop
  | literal {i t value} (h : Literal.ofKind? t.kind = some value) : Primary [t] (.literal i value)
  | super {i t dot method} (ht : t.isKeyword .super) (hdot : dot.isSymbol .dot)
    (hmethod : method.isIdentifier) : Primary [t, dot, method] (.super i t method)
  | this {i t} (ht : t.isKeyword .dies) : Primary [t] (.this i t)
  | var {i t} (ht : t.isIdentifier) : Primary [t] (.var i t)
  | grouping {i opening ts closing e} (hopening : opening.isSymbol .leftParen)
    (he : Expression ts e) (hclosing : closing.isSymbol .rightParen) :
    Primary (opening :: ts ++ [closing]) (.grouping i e)

inductive Call : List Token → Expr → Prop
  | primary {ts e} (h : Primary ts e) : Call ts e
  | call {i ts e opening us arguments closing} (hcallee : Call ts e)
    (hopening : opening.isSymbol .leftParen) (hargs : Arguments us arguments)
    (hclosing : closing.isSymbol .rightParen) :
    Call (ts ++ opening :: us ++ [closing]) (.call i e closing arguments)
  | get {i ts e dot name} (hobject : Call ts e) (hdot : dot.isSymbol .dot)
    (hname : name.isIdentifier) : Call (ts ++ [dot, name]) (.get i e name)

inductive Arguments : List Token → List Expr → Prop
  | none : Arguments [] []
  | some {ts es} (h : Entries ts es) (hlen : es.length ≤ Parser.maxEntries) : Arguments ts es

inductive Entries : List Token → List Expr → Prop
  | last {ts e} (he : Expression ts e) : Entries ts [e]
  | more {ts e comma us es} (he : Expression ts e) (hcomma : comma.isSymbol .comma)
    (hes : Entries us es) : Entries (ts ++ comma :: us) (e :: es)

inductive Unary : List Token → Expr → Prop
  | call {ts e} (h : Call ts e) : Unary ts e
  | not {i t ts e} (ht : t.isSymbol .bang) (he : Unary ts e) :
    Unary (t :: ts) (.unary i .not t e)
  | negate {i t ts e} (ht : t.isSymbol .minus) (he : Unary ts e) :
    Unary (t :: ts) (.unary i .negate t e)

/-- Operators of some levels, the loosest first. -/
inductive Operation : List Precedence → List Token → Expr → Prop
  | unary {ts e} (h : Unary ts e) : Operation [] ts e
  | operand {p ps ts e} (h : Operation ps ts e) : Operation (p :: ps) ts e
  | sign {i p ps ts left t node us right} (hleft : Operation (p :: ps) ts left)
    (hsign : Sign p t node) (hright : Operation ps us right) :
    Operation (p :: ps) (ts ++ t :: us) (node i left right)

inductive Expression : List Token → Expr → Prop
  | operation {ts e} (h : Operation Precedence.tower ts e) : Expression ts e
  | assign {i name sign us value} (hname : name.isIdentifier) (hsign : sign.isSymbol .equal)
    (hvalue : Expression us value) : Expression (name :: sign :: us) (.assign i name value)
  | set {i ts object dot name sign us value} (hobject : Call ts object) (hdot : dot.isSymbol .dot)
    (hname : name.isIdentifier) (hsign : sign.isSymbol .equal) (hvalue : Expression us value) :
    Expression (ts ++ dot :: name :: sign :: us) (.set i object name value)

end

inductive Optional : List Token → Option Expr → Prop
  | none : Optional [] none
  | some {ts e} (h : Expression ts e) : Optional ts (some e)

inductive Names : List Token → List Token → Prop
  | last {t} (ht : t.isIdentifier) : Names [t] [t]
  | more {t comma us names} (ht : t.isIdentifier) (hcomma : comma.isSymbol .comma)
    (hnames : Names us names) : Names (t :: comma :: us) (t :: names)

inductive Parameters : List Token → List Token → Prop
  | none : Parameters [] []
  | some {ts names} (h : Names ts names) (hlen : names.length ≤ Parser.maxEntries) :
    Parameters ts names

/-- What follows the word `var`. -/
inductive Variable : List Token → Stmt → Prop
  | plain {name semicolon} (hname : name.isIdentifier)
    (hsemicolon : semicolon.isSymbol .semicolon) : Variable [name, semicolon] (.varDecl name none)
  | initialized {name sign ts e semicolon} (hname : name.isIdentifier)
    (hsign : sign.isSymbol .equal) (he : Expression ts e)
    (hsemicolon : semicolon.isSymbol .semicolon) :
    Variable (name :: sign :: ts ++ [semicolon]) (.varDecl name (some e))

inductive Initializer : List Token → Option Stmt → Prop
  | none {semicolon} (h : semicolon.isSymbol .semicolon) : Initializer [semicolon] none
  | varDecl {keyword ts s} (hkeyword : keyword.isKeyword .var) (h : Variable ts s) :
    Initializer (keyword :: ts) (some s)
  | expression {ts e semicolon} (he : Expression ts e)
    (hsemicolon : semicolon.isSymbol .semicolon) :
    Initializer (ts ++ [semicolon]) (some (.expression e))

/-- A superclass is a variable. -/
inductive Superclass : List Token → Option Expr → Prop
  | none : Superclass [] none
  | some {i sign name} (hsign : sign.isSymbol .less) (hname : name.isIdentifier) :
    Superclass [sign, name] (some (.var i name))

/-- An empty condition always holds. -/
inductive Condition : List Token → Expr → Prop
  | always {i} : Condition [] (.literal i (.bool true))
  | expression {ts e} (h : Expression ts e) : Condition ts e

mutual

/-- Statements; the first index tells whether a `wenn` at the end could still take a `sonst`. -/
inductive Statement : Bool → List Token → Stmt → Prop
  | expression {ts e semicolon} (he : Expression ts e)
    (hsemicolon : semicolon.isSymbol .semicolon) :
    Statement false (ts ++ [semicolon]) (.expression e)
  | print {keyword ts e semicolon} (hkeyword : keyword.isKeyword .drucke)
    (he : Expression ts e) (hsemicolon : semicolon.isSymbol .semicolon) :
    Statement false (keyword :: ts ++ [semicolon]) (.print e)
  | ret {keyword ts value semicolon} (hkeyword : keyword.isKeyword .zurueckgeben)
    (hvalue : Optional ts value) (hsemicolon : semicolon.isSymbol .semicolon) :
    Statement false (keyword :: ts ++ [semicolon]) (.ret keyword value)
  | block {opening ts body closing} (hopening : opening.isSymbol .leftBrace)
    (hbody : Declarations ts body) (hclosing : closing.isSymbol .rightBrace) :
    Statement false (opening :: ts ++ [closing]) (.block body)
  | loop {dangling keyword opening ts e closing us body}
    (hkeyword : keyword.isKeyword .waehrend) (hopening : opening.isSymbol .leftParen)
    (he : Expression ts e) (hclosing : closing.isSymbol .rightParen)
    (hbody : Statement dangling us body) :
    Statement dangling (keyword :: opening :: ts ++ closing :: us) (.loop e body)
  | count {dangling keyword opening ts₁ first ts₂ condition semicolon ts₃ increment closing us body}
    (hkeyword : keyword.isKeyword .fuer) (hopening : opening.isSymbol .leftParen)
    (hfirst : Initializer ts₁ first) (hcondition : Condition ts₂ condition)
    (hsemicolon : semicolon.isSymbol .semicolon) (hincrement : Optional ts₃ increment)
    (hclosing : closing.isSymbol .rightParen) (hbody : Statement dangling us body) :
    Statement dangling (keyword :: opening :: ts₁ ++ ts₂ ++ semicolon :: ts₃ ++ closing :: us)
      (Reading.loopBlock (.loop condition (Reading.loopBody body increment)) first)
  | ifThen {dangling keyword opening ts e closing us thenBranch}
    (hkeyword : keyword.isKeyword .wenn) (hopening : opening.isSymbol .leftParen)
    (he : Expression ts e) (hclosing : closing.isSymbol .rightParen)
    (hthen : Statement dangling us thenBranch) :
    Statement true (keyword :: opening :: ts ++ closing :: us) (.ifElse e thenBranch none)
  | ifElse {dangling keyword opening ts e closing us thenBranch other vs elseBranch}
    (hkeyword : keyword.isKeyword .wenn) (hopening : opening.isSymbol .leftParen)
    (he : Expression ts e) (hclosing : closing.isSymbol .rightParen)
    (hthen : Statement false us thenBranch) (hother : other.isKeyword .sonst)
    (helse : Statement dangling vs elseBranch) :
    Statement dangling (keyword :: opening :: ts ++ closing :: us ++ other :: vs)
      (.ifElse e thenBranch (some elseBranch))

inductive Declaration : Bool → List Token → Stmt → Prop
  | classDecl {keyword name ts parent opening us methods closing}
    (hkeyword : keyword.isKeyword .klasse) (hname : name.isIdentifier)
    (hparent : Superclass ts parent) (hopening : opening.isSymbol .leftBrace)
    (hmethods : Functions us methods) (hclosing : closing.isSymbol .rightBrace) :
    Declaration false (keyword :: name :: ts ++ opening :: us ++ [closing])
      (.classDecl name parent methods)
  | funDecl {keyword ts decl} (hkeyword : keyword.isKeyword .funktion)
    (hdecl : Function ts decl) : Declaration false (keyword :: ts) (.funDecl decl)
  | varDecl {keyword ts s} (hkeyword : keyword.isKeyword .var) (h : Variable ts s) :
    Declaration false (keyword :: ts) s
  | statement {dangling ts s} (h : Statement dangling ts s) : Declaration dangling ts s

inductive Declarations : List Token → List Stmt → Prop
  | nil : Declarations [] []
  | cons {dangling ts s us ss} (hs : Declaration dangling ts s) (hss : Declarations us ss) :
    Declarations (ts ++ us) (s :: ss)

inductive Function : List Token → FunctionDecl → Prop
  | mk {name opening ts params closing brace us body closing'} (hname : name.isIdentifier)
    (hopening : opening.isSymbol .leftParen) (hparams : Parameters ts params)
    (hclosing : closing.isSymbol .rightParen) (hbrace : brace.isSymbol .leftBrace)
    (hbody : Declarations us body) (hclosing' : closing'.isSymbol .rightBrace) :
    Function (name :: opening :: ts ++ closing :: brace :: us ++ [closing']) ⟨name, params, body⟩

inductive Functions : List Token → List FunctionDecl → Prop
  | nil : Functions [] []
  | cons {ts decl us decls} (hdecl : Function ts decl) (hdecls : Functions us decls) :
    Functions (ts ++ us) (decl :: decls)

end

section Signs

variable {p : Precedence} {t : Token} {node : ExprId → Expr → Expr → Expr}

/-- These are the operators that a token is taken for. -/
lemma sign_iff : Sign p t node ↔ ∃ op, Operator.at? p t = some op ∧ node = (op.apply · t) := by
  constructor
  · intro h
    cases h with
    | or ht => exact ⟨.logical .or, by rw [Reading.eq_keyword ht]; rfl, rfl⟩
    | and ht => exact ⟨.logical .and, by rw [Reading.eq_keyword ht]; rfl, rfl⟩
    | notEqual ht => exact ⟨.binary .notEqual, by rw [Reading.eq_symbol ht]; rfl, rfl⟩
    | equal ht => exact ⟨.binary .equal, by rw [Reading.eq_symbol ht]; rfl, rfl⟩
    | greater ht => exact ⟨.binary .greater, by rw [Reading.eq_symbol ht]; rfl, rfl⟩
    | greaterEqual ht => exact ⟨.binary .greaterEqual, by rw [Reading.eq_symbol ht]; rfl, rfl⟩
    | less ht => exact ⟨.binary .less, by rw [Reading.eq_symbol ht]; rfl, rfl⟩
    | lessEqual ht => exact ⟨.binary .lessEqual, by rw [Reading.eq_symbol ht]; rfl, rfl⟩
    | subtract ht => exact ⟨.binary .subtract, by rw [Reading.eq_symbol ht]; rfl, rfl⟩
    | add ht => exact ⟨.binary .add, by rw [Reading.eq_symbol ht]; rfl, rfl⟩
    | divide ht => exact ⟨.binary .divide, by rw [Reading.eq_symbol ht]; rfl, rfl⟩
    | multiply ht => exact ⟨.binary .multiply, by rw [Reading.eq_symbol ht]; rfl, rfl⟩
  · rintro ⟨op, h, rfl⟩
    obtain ⟨hop, rfl⟩ : Operator.ofKind? t.kind = some op ∧ op.precedence = p := by
      simpa [Operator.at?, Option.filter_eq_some_iff] using h
    unfold Operator.ofKind? at hop
    split at hop <;> rename_i hk <;> cases hop
    · exact .or (Parser.isKeyword_of_kind hk)
    · exact .and (Parser.isKeyword_of_kind hk)
    · exact .notEqual (Parser.isSymbol_of_kind hk)
    · exact .equal (Parser.isSymbol_of_kind hk)
    · exact .greater (Parser.isSymbol_of_kind hk)
    · exact .greaterEqual (Parser.isSymbol_of_kind hk)
    · exact .less (Parser.isSymbol_of_kind hk)
    · exact .lessEqual (Parser.isSymbol_of_kind hk)
    · exact .subtract (Parser.isSymbol_of_kind hk)
    · exact .add (Parser.isSymbol_of_kind hk)
    · exact .multiply (Parser.isSymbol_of_kind hk)
    · exact .divide (Parser.isSymbol_of_kind hk)

lemma Unary.of_ofKind? {i : ExprId} {op : UnaryOp} {ts : List Token} {e : Expr}
    (hop : UnaryOp.ofKind? t.kind = some op) (he : Unary ts e) :
    Unary (t :: ts) (.unary i op t e) := by
  unfold UnaryOp.ofKind? at hop
  split at hop <;> rename_i hk <;> cases hop
  · exact .not (Parser.isSymbol_of_kind hk) he
  · exact .negate (Parser.isSymbol_of_kind hk) he

end Signs

end Tree
end GermanLox
