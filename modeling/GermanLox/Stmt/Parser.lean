import GermanLox.Expr.Parser

/-!
# Parsing programs

Declarations and statements, and `parse`, which reads a whole program. A counting loop is written
out with a condition loop and blocks while it is read. A declaration that fails is noted and
skipped, so that one run finds the faults of all of them.
-/

namespace GermanLox
namespace Parser

/-- An expression and the semicolon after it. -/
def terminated (room : Nat) (cause : SyntaxFault) : Parser Expr := do
  let e ← expression room
  let _ ← expect (·.isSymbol .semicolon) cause
  return e

/-- An expression, unless a symbol comes first. -/
def expressionUnless (room : Nat) (stop : Symbol) : Parser (Option Expr) := do
  if ← nextIs (·.isSymbol stop) then
    return none
  else
    return some (← expression room)

def expressionStatement (room : Nat) : Parser Stmt := do
  return .expression (← terminated room .expressionEndExpected)

/-- What follows the word `drucke`. -/
def printStatement (room : Nat) : Parser Stmt := do
  return .print (← terminated room .printEndExpected)

/-- What follows the word `zurückgeben`. -/
def returnStatement (room : Nat) (keyword : Token) : Parser Stmt := do
  let value ← expressionUnless room .semicolon
  let _ ← expect (·.isSymbol .semicolon) .returnEndExpected
  return .ret keyword value

/-- What follows the word `var`. -/
def varDeclaration (room : Nat) : Parser Stmt := do
  let name ← expect (·.isIdentifier) .variableNameExpected
  let initializer ←
    match ← accept? (·.isSymbol .equal) with
    | some _ => some <$> expression room
    | none => pure none
  let _ ← expect (·.isSymbol .semicolon) .declarationEndExpected
  return .varDecl name initializer

/-- What follows an opening brace. -/
def block (room : Nat) (item : Parser (Option Stmt)) : Parser (List Stmt) := do
  let body ← itemsUntil (·.isSymbol .rightBrace) item room
  let _ ← expect (·.isSymbol .rightBrace) .blockEndExpected
  return body

/-- A name, parameters and a body. -/
def routine (room : Nat) (kind : Routine) (item : Parser (Option Stmt)) :
    Parser FunctionDecl := do
  let name ← expect (·.isIdentifier) (.routineNameExpected kind)
  let _ ← expect (·.isSymbol .leftParen) (.parametersExpected kind)
  let params ← entriesOrNone (expect (·.isIdentifier) .parameterNameExpected) .tooManyParameters
    room
  let _ ← expect (·.isSymbol .rightParen) .parametersEndExpected
  let _ ← expect (·.isSymbol .leftBrace) (.routineBodyExpected kind)
  let body ← block room item
  return ⟨name, params, body⟩

/-- The superclass after a class name, if one is given. -/
def superclass : Parser (Option Expr) := do
  match ← accept? (·.isSymbol .less) with
  | none => return none
  | some _ =>
    let name ← expect (·.isIdentifier) .superclassNameExpected
    return some (.var (← freshId) name)

/-- What follows the word `klasse`. -/
def classDeclaration (room : Nat) (item : Parser (Option Stmt)) : Parser Stmt := do
  let name ← expect (·.isIdentifier) .classNameExpected
  let parent ← superclass
  let _ ← expect (·.isSymbol .leftBrace) .classBodyExpected
  let methods ← itemsUntil (·.isSymbol .rightBrace) (some <$> routine room .method item) room
  let _ ← expect (·.isSymbol .rightBrace) .classEndExpected
  return .classDecl name parent methods

/-- The first clause of a counting loop. -/
def forInitializer (room : Nat) : Parser (Option Stmt) := do
  match ← accept? (·.isSymbol .semicolon) with
  | some _ => return none
  | none =>
    match ← accept? (·.isKeyword .var) with
    | some _ => some <$> varDeclaration room
    | none => some <$> expressionStatement room

/-- What follows the word `für`. The increment runs after the body, in a block with it; the
initializer and the loop share an outer block; an empty condition always holds. -/
def forStatement (room : Nat) (statement : Parser Stmt) : Parser Stmt := do
  let _ ← expect (·.isSymbol .leftParen) .forClausesExpected
  let initializer ← forInitializer room
  let condition ← expressionUnless room .semicolon
  let _ ← expect (·.isSymbol .semicolon) .forConditionEndExpected
  let increment ← expressionUnless room .rightParen
  let _ ← expect (·.isSymbol .rightParen) .forClausesEndExpected
  let body ← statement
  let body :=
    match increment with
    | none => body
    | some e => .block [body, .expression e]
  let condition ←
    match condition with
    | none => (Expr.literal · (.bool true)) <$> freshId
    | some e => pure e
  let loop := Stmt.loop condition body
  match initializer with
  | none => return loop
  | some first => return .block [first, loop]

/-- What follows the word `wenn`. -/
def ifStatement (room : Nat) (statement : Parser Stmt) : Parser Stmt := do
  let _ ← expect (·.isSymbol .leftParen) .ifConditionExpected
  let condition ← expression room
  let _ ← expect (·.isSymbol .rightParen) .ifConditionEndExpected
  let thenBranch ← statement
  match ← accept? (·.isKeyword .sonst) with
  | none => return .ifElse condition thenBranch none
  | some _ => return .ifElse condition thenBranch (some (← statement))

/-- What follows the word `während`. -/
def whileStatement (room : Nat) (statement : Parser Stmt) : Parser Stmt := do
  let _ ← expect (·.isSymbol .leftParen) .whileConditionExpected
  let condition ← expression room
  let _ ← expect (·.isSymbol .rightParen) .whileConditionEndExpected
  return .loop condition (← statement)

/-- A statement, given how to read the statements and declarations inside it. -/
def statementOver (room : Nat) (statement : Parser Stmt) (item : Parser (Option Stmt)) :
    Parser Stmt := do
  match ← peek? with
  | none => expressionStatement room
  | some t =>
    match t.kind with
    | .keyword .fuer => advance; forStatement room statement
    | .keyword .wenn => advance; ifStatement room statement
    | .keyword .waehrend => advance; whileStatement room statement
    | .keyword .zurueckgeben => advance; returnStatement room t
    | .keyword .drucke => advance; printStatement room
    | .symbol .leftBrace => advance; return .block (← block room item)
    | _ => expressionStatement room

/-- A declaration or statement, given how to read those inside it. -/
def itemOver (room : Nat) (statement : Parser Stmt) (item : Parser (Option Stmt)) :
    Parser (Option Stmt) :=
  recover do
    match ← peek? with
    | none => statementOver room statement item
    | some t =>
      match t.kind with
      | .keyword .klasse => advance; classDeclaration room item
      | .keyword .funktion => advance; return .funDecl (← routine room .function item)
      | .keyword .var => advance; varDeclaration room
      | _ => statementOver room statement item

mutual

def statement : Nat → Parser Stmt
  | 0 => fail .expressionExpected
  | room + 1 => statementOver (room + 1) (statement room) (item room)

/-- A declaration or statement; one that fails is noted and skipped. -/
def item : Nat → Parser (Option Stmt)
  | 0 => recover (fail .expressionExpected)
  | room + 1 => itemOver (room + 1) (statement room) (item room)

end

/-- All declarations and statements up to the end. -/
def program (room : Nat) : Parser (List Stmt) :=
  itemsUntil (fun _ => false) (item room) room

/-- Where reading starts: the tokens before the first end mark, and its line. Without a mark the
end is on the line of the last token. -/
def State.start (tokens : List Token) (firstId : ExprId) : State where
  rest := tokens.takeWhile (·.kind ≠ .eof)
  endLine :=
    match tokens.find? (·.kind = .eof) with
    | some t => t.line
    | none => (tokens.getLast?.map Token.line).getD 1
  nextId := firstId
  diagnostics := []

end Parser

/-- What a list of tokens parses to, with the next free expression number. -/
structure Parsed where
  outcome : Except (List Diagnostic) (List Stmt)
  nextId : ExprId

/-- The statements of a list of tokens, or all diagnostics if there is one. -/
def parse (tokens : List Token) (firstId : ExprId) : Parsed :=
  match Parser.program tokens.length (Parser.State.start tokens firstId) with
  | .ok statements s =>
    ⟨if s.diagnostics.isEmpty then .ok statements else .error s.diagnostics, s.nextId⟩
  | .error d s => ⟨.error (s.diagnostics ++ [d]), s.nextId⟩

end GermanLox
