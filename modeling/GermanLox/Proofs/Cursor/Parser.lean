import GermanLox.Proofs.Reading.Basic

/-!
# Parsing over a buffer

The same parser over a buffer that holds all tokens, with a cursor that moves over them. Every look
at a token is a look at a place of the buffer, and the end mark is a token like the others. So a
walk over the buffer need not have a result: it has none if it looks outside of the buffer. It has
none either if it runs out of room, where the room bounds how deep it nests and how often each of
its loops goes round.
-/

namespace GermanLox

/-- A buffer with a place in it, and what a parser keeps besides. -/
@[ext]
structure Cursor where
  tokens : List Token
  place : Nat
  nextId : ExprId
  diagnostics : List Diagnostic

namespace Cursor

/-- A walk over a buffer. It ends with a value or with a failure, and in both cases at a place. -/
abbrev Walk := ExceptT Diagnostic (StateT Cursor Option)

variable {α : Type}

/-- A walk that has no result. -/
def stuck : Walk α := fun _ =>
  none

/-- The token at a place; no result outside of the buffer. -/
def look (place : Cursor → Nat) : Walk Token := fun c =>
  c.tokens[place c]?.map fun t => (.ok t, c)

def peek : Walk Token :=
  look place

def previous : Walk Token :=
  look (·.place - 1)

def change (f : Cursor → Cursor) : Walk Unit := fun c =>
  some (.ok (), f c)

def atEnd : Walk Bool := do
  return (← peek).kind = .eof

/-- Moves on, unless at an end mark, and gives the token before the cursor. -/
def advance : Walk Token := do
  if ← atEnd then
    previous
  else
    change fun c => { c with place := c.place + 1 }
    previous

/-- Whether the token at the cursor is of a given form and no end mark. -/
def check (form : Token → Bool) : Walk Bool := do
  if ← atEnd then return false else return form (← peek)

def accept? (form : Token → Bool) : Walk (Option Token) := do
  if ← check form then return some (← advance) else return none

/-- Goes on with the next token if it is of a given form, and without it otherwise. -/
def given (form : Token → Bool) (yes : Token → Walk α) (no : Walk α) : Walk α := do
  let r ← accept? form
  r.elim no yes

def fail (cause : SyntaxFault) : Walk α := do
  throw (.syntactic (← peek).line cause)

def expect (form : Token → Bool) (cause : SyntaxFault) : Walk Token :=
  given form pure (fail cause)

def note (d : Diagnostic) : Walk Unit :=
  change fun c => { c with diagnostics := c.diagnostics ++ [d] }

def freshId : Walk ExprId := fun c =>
  some (.ok c.nextId, { c with nextId := c.nextId + 1 })

/-- The note at an entry past the limit. -/
def noteOverlong (tooMany : SyntaxFault) (count : Nat) : Walk Unit := do
  if Parser.maxEntries ≤ count then note (.syntactic (← peek).line tooMany) else return ()

/-- Entries divided by commas, `count` of them having been read before. -/
def entries (entry : Walk α) (tooMany : SyntaxFault) : Nat → Nat → Walk (List α)
  | 0, _ => stuck
  | room + 1, count => do
    noteOverlong tooMany count
    let first ← entry
    match ← accept? (·.isSymbol .comma) with
    | none => return [first]
    | some _ => return first :: (← entries entry tooMany room (count + 1))

def entriesOrNone (entry : Walk α) (tooMany : SyntaxFault) (room : Nat) : Walk (List α) := do
  if ← check (·.isSymbol .rightParen) then return [] else entries entry tooMany room 0

/-- Items up to a token of a given form or an end mark. -/
def itemsUntil (stop : Token → Bool) (item : Walk (Option α)) : Nat → Walk (List α)
  | 0 => stuck
  | room + 1 => do
    if ← check stop then return []
    else if ← atEnd then return []
    else
      let first ← item
      return first.toList ++ (← itemsUntil stop item room)

def primary (inner : Walk Expr) : Walk Expr :=
  given (fun t => (Literal.ofKind? t.kind).isSome)
    (fun t => (Literal.ofKind? t.kind).elim (fail .expressionExpected) fun value => do
      return .literal (← freshId) value) <|
  given (·.isKeyword .super)
    (fun keyword => do
      let _ ← expect (·.isSymbol .dot) .superDotExpected
      let method ← expect (·.isIdentifier) .superMethodExpected
      return .super (← freshId) keyword method) <|
  given (·.isKeyword .dies) (fun keyword => do return .this (← freshId) keyword) <|
  given (·.isIdentifier) (fun name => do return .var (← freshId) name) <|
  given (·.isSymbol .leftParen)
    (fun _ => do
      let e ← inner
      let _ ← expect (·.isSymbol .rightParen) .groupingEndExpected
      return .grouping (← freshId) e) <|
  fail .expressionExpected

/-- Argument lists and property names after an expression. -/
def suffixes (inner : Walk Expr) : Nat → Expr → Walk Expr
  | 0, _ => stuck
  | room + 1, e => do
    match ← accept? (·.isSymbol .leftParen) with
    | some _ =>
      let arguments ← entriesOrNone inner .tooManyArguments room
      let paren ← expect (·.isSymbol .rightParen) .argumentsEndExpected
      suffixes inner room (.call (← freshId) e paren arguments)
    | none =>
      match ← accept? (·.isSymbol .dot) with
      | some _ =>
        let name ← expect (·.isIdentifier) .propertyNameExpected
        suffixes inner room (.get (← freshId) e name)
      | none => return e

def call (room : Nat) (inner : Walk Expr) : Walk Expr := do
  let e ← primary inner
  suffixes inner room e

/-- A sign goes in front of a signed operand. -/
def unary (operand : Walk Expr) : Nat → Walk Expr
  | 0 => stuck
  | room + 1 => do
    match ← accept? fun t => (UnaryOp.ofKind? t.kind).isSome with
    | none => operand
    | some t =>
      let e ← unary operand room
      match UnaryOp.ofKind? t.kind with
      | none => return e
      | some op => return .unary (← freshId) op t e

/-- Further operands of one precedence, grouped to the left. -/
def operands (p : Precedence) (operand : Walk Expr) : Nat → Expr → Walk Expr
  | 0, _ => stuck
  | room + 1, left => do
    match ← accept? fun t => (Operator.at? p t).isSome with
    | none => return left
    | some t =>
      let right ← operand
      match Operator.at? p t with
      | none => return left
      | some op => operands p operand room (op.apply (← freshId) t left right)

/-- Operators of some levels, the loosest first. -/
def operation (room : Nat) (inner : Walk Expr) : List Precedence → Walk Expr
  | [] => unary (call room inner) room
  | p :: ps => do
    let first ← operation room inner ps
    operands p (operation room inner ps) room first

/-- An assignment, or an expression that is none. -/
def assignment (room : Nat) (inner : Walk Expr) : Walk Expr := do
  let target ← operation room inner Precedence.tower
  match ← accept? (·.isSymbol .equal) with
  | none => return target
  | some sign =>
    let value ← inner
    match target with
    | .var _ name => return .assign (← freshId) name value
    | .get _ object name => return .set (← freshId) object name value
    | _ =>
      note (.syntactic sign.line .invalidAssignmentTarget)
      return target

def expression : Nat → Walk Expr
  | 0 => stuck
  | room + 1 => assignment (room + 1) (expression room)

/-- An expression and the semicolon after it. -/
def terminated (room : Nat) (cause : SyntaxFault) : Walk Expr := do
  let e ← expression room
  let _ ← expect (·.isSymbol .semicolon) cause
  return e

/-- An expression, unless a symbol comes first. -/
def expressionUnless (room : Nat) (stop : Symbol) : Walk (Option Expr) := do
  if ← check (·.isSymbol stop) then return none else return some (← expression room)

def expressionStatement (room : Nat) : Walk Stmt := do
  return .expression (← terminated room .expressionEndExpected)

/-- What follows the word `var`. -/
def varDeclaration (room : Nat) : Walk Stmt := do
  let name ← expect (·.isIdentifier) .variableNameExpected
  let initializer ←
    match ← accept? (·.isSymbol .equal) with
    | some _ => some <$> expression room
    | none => pure none
  let _ ← expect (·.isSymbol .semicolon) .declarationEndExpected
  return .varDecl name initializer

/-- What follows an opening brace. -/
def block (room : Nat) (item : Walk (Option Stmt)) : Walk (List Stmt) := do
  let body ← itemsUntil (·.isSymbol .rightBrace) item room
  let _ ← expect (·.isSymbol .rightBrace) .blockEndExpected
  return body

/-- A name, parameters and a body. -/
def routine (room : Nat) (kind : Routine) (item : Walk (Option Stmt)) : Walk FunctionDecl := do
  let name ← expect (·.isIdentifier) (.routineNameExpected kind)
  let _ ← expect (·.isSymbol .leftParen) (.parametersExpected kind)
  let params ← entriesOrNone (expect (·.isIdentifier) .parameterNameExpected) .tooManyParameters
    room
  let _ ← expect (·.isSymbol .rightParen) .parametersEndExpected
  let _ ← expect (·.isSymbol .leftBrace) (.routineBodyExpected kind)
  let body ← block room item
  return ⟨name, params, body⟩

/-- The superclass after a class name, if one is given. -/
def superclass : Walk (Option Expr) := do
  match ← accept? (·.isSymbol .less) with
  | none => return none
  | some _ =>
    let name ← expect (·.isIdentifier) .superclassNameExpected
    return some (.var (← freshId) name)

/-- What follows the word `klasse`. -/
def classDeclaration (room : Nat) (item : Walk (Option Stmt)) : Walk Stmt := do
  let name ← expect (·.isIdentifier) .classNameExpected
  let parent ← superclass
  let _ ← expect (·.isSymbol .leftBrace) .classBodyExpected
  let methods ← itemsUntil (·.isSymbol .rightBrace) (some <$> routine room .method item) room
  let _ ← expect (·.isSymbol .rightBrace) .classEndExpected
  return .classDecl name parent methods

/-- The first clause of a counting loop. -/
def forInitializer (room : Nat) : Walk (Option Stmt) := do
  match ← accept? (·.isSymbol .semicolon) with
  | some _ => return none
  | none =>
    match ← accept? (·.isKeyword .var) with
    | some _ => some <$> varDeclaration room
    | none => some <$> expressionStatement room

/-- The condition of a counting loop, made up if it was left out. -/
def conditionOr : Option Expr → Walk Expr
  | some e => return e
  | none => return .literal (← freshId) (.bool true)

/-- What follows the word `für`. -/
def forStatement (room : Nat) (statement : Walk Stmt) : Walk Stmt := do
  let _ ← expect (·.isSymbol .leftParen) .forClausesExpected
  let initializer ← forInitializer room
  let condition ← expressionUnless room .semicolon
  let _ ← expect (·.isSymbol .semicolon) .forConditionEndExpected
  let increment ← expressionUnless room .rightParen
  let _ ← expect (·.isSymbol .rightParen) .forClausesEndExpected
  let body ← statement
  let condition ← conditionOr condition
  return Reading.loopBlock (.loop condition (Reading.loopBody body increment)) initializer

/-- What follows the word `wenn`. -/
def ifStatement (room : Nat) (statement : Walk Stmt) : Walk Stmt := do
  let _ ← expect (·.isSymbol .leftParen) .ifConditionExpected
  let condition ← expression room
  let _ ← expect (·.isSymbol .rightParen) .ifConditionEndExpected
  let thenBranch ← statement
  match ← accept? (·.isKeyword .sonst) with
  | none => return .ifElse condition thenBranch none
  | some _ => return .ifElse condition thenBranch (some (← statement))

/-- What follows the word `während`. -/
def whileStatement (room : Nat) (statement : Walk Stmt) : Walk Stmt := do
  let _ ← expect (·.isSymbol .leftParen) .whileConditionExpected
  let condition ← expression room
  let _ ← expect (·.isSymbol .rightParen) .whileConditionEndExpected
  return .loop condition (← statement)

/-- What follows the word `zurückgeben`. -/
def returnStatement (room : Nat) (keyword : Token) : Walk Stmt := do
  let value ← expressionUnless room .semicolon
  let _ ← expect (·.isSymbol .semicolon) .returnEndExpected
  return .ret keyword value

/-- A statement, given how to walk over those inside it. -/
def statementOver (room : Nat) (statement : Walk Stmt) (item : Walk (Option Stmt)) : Walk Stmt :=
  given (·.isKeyword .fuer) (fun _ => forStatement room statement) <|
  given (·.isKeyword .wenn) (fun _ => ifStatement room statement) <|
  given (·.isKeyword .waehrend) (fun _ => whileStatement room statement) <|
  given (·.isKeyword .zurueckgeben) (returnStatement room) <|
  given (·.isSymbol .leftBrace) (fun _ => do return .block (← block room item)) <|
  given (·.isKeyword .drucke) (fun _ => do return .print (← terminated room .printEndExpected)) <|
  expressionStatement room

/-- A declaration or statement, given how to walk over those inside it. -/
def declarationOver (room : Nat) (statement : Walk Stmt) (item : Walk (Option Stmt)) : Walk Stmt :=
  given (·.isKeyword .klasse) (fun _ => classDeclaration room item) <|
  given (·.isKeyword .funktion)
    (fun _ => do return .funDecl (← routine room .function item)) <|
  given (·.isKeyword .var) (fun _ => varDeclaration room) <|
  statementOver room statement item

/-- Moves on to the next statement, where one token has just been skipped. -/
def skip : Nat → Walk Unit
  | 0 => stuck
  | room + 1 => do
    if ← atEnd then return ()
    else if (← previous).isSymbol .semicolon then return ()
    else if Parser.startsStatement (← peek) then return ()
    else
      let _ ← advance
      skip room

/-- Skips one token and then all up to the next statement. -/
def synchronize (room : Nat) : Walk Unit := do
  let _ ← advance
  skip room

/-- Notes a failure and goes on at the next statement. -/
def recover (room : Nat) (d : Diagnostic) : Walk (Option Stmt) := do
  note d
  synchronize room
  return none

mutual

def statement : Nat → Walk Stmt
  | 0 => stuck
  | room + 1 => statementOver (room + 1) (statement room) (item room)

/-- A declaration or statement; one that fails is noted and skipped. -/
def item : Nat → Walk (Option Stmt)
  | 0 => stuck
  | room + 1 =>
    tryCatch (do return some (← declarationOver (room + 1) (statement room) (item room)))
      (recover (room + 1))

end

/-- All declarations and statements up to an end mark. -/
def program (room : Nat) : Walk (List Stmt) :=
  itemsUntil (fun _ => false) (item room) room

/-- The buffer for some tokens: an end mark is added unless the last token is one. -/
def buffer (tokens : List Token) : List Token :=
  if tokens.getLast?.any (·.kind = .eof) then tokens
  else tokens ++ [⟨.eof, "", (tokens.getLast?.map Token.line).getD 1⟩]

/-- The statements of some tokens, or all diagnostics if there is one, with the cursor at the end;
no result if the walk has none. -/
def parse (room : Nat) (tokens : List Token) (firstId : ExprId) :
    Option (Except (List Diagnostic) (List Stmt) × Cursor) :=
  match program room ⟨buffer tokens, 0, firstId, []⟩ with
  | some (.ok statements, c) =>
    some (if c.diagnostics.isEmpty then .ok statements else .error c.diagnostics, c)
  | some (.error d, c) => some (.error (c.diagnostics ++ [d]), c)
  | none => none

end Cursor
end GermanLox
