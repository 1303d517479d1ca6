import GermanLox.Proofs.Grammar.Exact
import GermanLox.Proofs.Grammar.Exchange

/-!
# Counting loops written by hand

A counting loop has the tree of a loop with a condition that is written by hand: in a block behind
its first clause, and with a body that ends in its increment. What is left out of the loop is left
out there as well; a condition that is left out always holds.
-/

namespace GermanLox

/-- Tokens that a rule of the grammar derives. -/
abbrev Phrase (rule : Grammar.Rule) : Type :=
  { ts : List Token // Grammar.Derivable rule ts }

abbrev Mark (s : Symbol) : Type :=
  { t : Token // t.isSymbol s }

abbrev Word (k : Keyword) : Type :=
  { t : Token // t.isKeyword k }

/-- The first clause of a counting loop, with the semicolon that ends it. -/
inductive FirstClause where
  | declaration (phrase : Phrase .varDecl)
  | expression (phrase : Phrase .exprStmt)
  | empty (semicolon : Mark .semicolon)

def FirstClause.tokens : FirstClause → List Token
  | declaration phrase => phrase
  | expression phrase => phrase
  | empty semicolon => [semicolon.val]

structure CountingLoop where
  keyword : Word .fuer
  opening : Mark .leftParen
  first : FirstClause
  condition : Option (Phrase .expression)
  semicolon : Mark .semicolon
  increment : Option (Phrase .expression)
  closing : Mark .rightParen
  body : Phrase .statement

/-- The words and marks of the loop that is written by hand. -/
structure LoopMarks where
  outerOpening : Mark .leftBrace
  keyword : Word .waehrend
  opening : Mark .leftParen
  always : Word .wahr
  closing : Mark .rightParen
  innerOpening : Mark .leftBrace
  semicolon : Mark .semicolon
  innerClosing : Mark .rightBrace
  outerClosing : Mark .rightBrace

namespace CountingLoop

/-- The tokens of a clause that may be left out. -/
def clause (phrase : Option (Phrase .expression)) : List Token :=
  phrase.elim [] Subtype.val

/-- `für ( first condition ; increment ) body` -/
def tokens (loop : CountingLoop) : List Token :=
  loop.keyword.val :: loop.opening.val :: loop.first.tokens ++ clause loop.condition ++
    loop.semicolon.val :: clause loop.increment ++ loop.closing.val :: loop.body.val

/-- `condition`, or `wahr` -/
def writtenCondition (loop : CountingLoop) (marks : LoopMarks) : List Token :=
  loop.condition.elim [marks.always.val] Subtype.val

/-- `{ body increment ; }`, or `body` -/
def writtenBody (loop : CountingLoop) (marks : LoopMarks) : List Token :=
  match loop.increment with
  | none => loop.body
  | some increment =>
    marks.innerOpening.val :: loop.body.val ++ increment.val ++
      [marks.semicolon.val, marks.innerClosing.val]

/-- `während ( condition ) body` -/
def writtenLoop (loop : CountingLoop) (marks : LoopMarks) : List Token :=
  marks.keyword.val :: marks.opening.val :: loop.writtenCondition marks ++
    marks.closing.val :: loop.writtenBody marks

/-- `{ first während ( condition ) body }`, or the loop alone -/
def written (loop : CountingLoop) (marks : LoopMarks) : List Token :=
  match loop.first with
  | .empty _ => loop.writtenLoop marks
  | first =>
    marks.outerOpening.val :: first.tokens ++ loop.writtenLoop marks ++ [marks.outerClosing.val]

end CountingLoop

namespace Tree

open Grammar CountingLoop

lemma expression_of_literal {t : Token} {value : Literal}
    (h : Literal.ofKind? t.kind = some value) (i : ExprId) : Expression [t] (.literal i value) :=
  .operation (.operand (.operand (.operand (.operand (.operand (.operand
    (.unary (.call (.primary (.literal h))))))))))

variable (loop : CountingLoop) (marks : LoopMarks)

/-- The condition of the loop is also the one that is written. -/
lemma exists_condition : ∃ e, Condition (clause loop.condition) e ∧
    Expression (loop.writtenCondition marks) e := by
  unfold clause writtenCondition
  cases loop.condition with
  | none =>
    refine ⟨.literal 0 (.bool true), .always, expression_of_literal ?_ 0⟩
    rw [Reading.eq_keyword marks.always.property]
    rfl
  | some phrase =>
    obtain ⟨e, he⟩ := hasTree_of_derivable phrase.property
    exact ⟨e, .expression he, he⟩

/-- The body with its increment. -/
lemma exists_body {d : Bool} {body : Stmt} (hbody : Statement d loop.body body) :
    ∃ d' increment, Optional (clause loop.increment) increment ∧
      Statement d' (loop.writtenBody marks) (Reading.loopBody body increment) := by
  unfold clause writtenBody
  cases loop.increment with
  | none => exact ⟨d, none, .none, hbody⟩
  | some phrase =>
    obtain ⟨e, he⟩ := hasTree_of_derivable phrase.property
    have hlast : Declarations (phrase.val ++ [marks.semicolon.val]) [.expression e] := by
      have hstatement := Statement.expression he marks.semicolon.property
      simpa using Declarations.cons (.statement hstatement) .nil
    have hblock := Statement.block marks.innerOpening.property
      (.cons (.statement hbody) hlast) marks.innerClosing.property
    exact ⟨false, some e, .some he, by simpa [Reading.loopBody] using hblock⟩

/-- The loop behind its first clause. -/
lemma exists_block {d : Bool} {body : Stmt} (hloop : Statement d (loop.writtenLoop marks) body) :
    ∃ d' first, Initializer loop.first.tokens first ∧
      Statement d' (loop.written marks) (Reading.loopBlock body first) := by
  have hblock : ∀ {ts s}, Declaration false ts s →
      Statement false (marks.outerOpening.val :: ts ++ loop.writtenLoop marks ++
        [marks.outerClosing.val]) (Reading.loopBlock body (some s)) := by
    intro ts s hs
    have hblock := Statement.block marks.outerOpening.property
      (.cons hs (.cons (.statement hloop) .nil)) marks.outerClosing.property
    simpa [Reading.loopBlock] using hblock
  unfold written
  cases loop.first with
  | declaration phrase =>
    obtain ⟨ts, hts⟩ := phrase
    obtain ⟨keyword, us, s, rfl, hkeyword, hs⟩ := hasTree_of_derivable hts
    exact ⟨false, some s, .varDecl hkeyword hs, hblock (.varDecl hkeyword hs)⟩
  | expression phrase =>
    obtain ⟨ts, hts⟩ := phrase
    obtain ⟨us, semicolon, e, rfl, hsemicolon, he⟩ := hasTree_of_derivable hts
    exact ⟨false, some (.expression e), .expression he hsemicolon,
      hblock (.statement (.expression he hsemicolon))⟩
  | empty semicolon => exact ⟨d, none, .none semicolon.property, hloop⟩

/-- A counting loop and the loop that is written by hand have one tree. -/
theorem exchange_written : Exchange loop.tokens (loop.written marks) := by
  obtain ⟨d, body, hbody⟩ := hasTree_of_derivable loop.body.property
  obtain ⟨condition, hcondition, hwritten⟩ := exists_condition loop marks
  obtain ⟨d', increment, hincrement, hbody'⟩ := exists_body loop marks hbody
  have hloop := Statement.loop marks.keyword.property marks.opening.property hwritten
    marks.closing.property hbody'
  obtain ⟨d'', first, hfirst, hblock⟩ := exists_block loop marks hloop
  have hcount := Statement.count loop.keyword.property loop.opening.property hfirst hcondition
    loop.semicolon.property hincrement loop.closing.property hbody
  exact ⟨⟨_, _, rfl, loop.keyword.property⟩, d, d'', _, _, hcount, hblock, rfl⟩

end Tree
end GermanLox
