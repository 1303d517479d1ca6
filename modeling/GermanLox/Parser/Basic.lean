import GermanLox.Diagnostic
import GermanLox.Stmt

/-!
# Reading tokens

A parser reads tokens from the front of those that are left. It fails with one diagnostic, or goes
on after noting diagnostics on the way; in both cases it leaves the tokens it has not read and the
next free expression number. What repeats or nests takes a bound on the number of tokens left,
called its room: each round reads a token, so with enough room the bound is never felt.
-/

namespace GermanLox

namespace Parser

structure State where
  /-- The tokens not read yet, without the end mark. -/
  rest : List Token
  /-- The line of the end mark. -/
  endLine : Nat
  nextId : Nat
  /-- What has been noted so far, in order. -/
  diagnostics : List Diagnostic

/-- The line of the next token or of the end. -/
def State.line (s : State) : Nat :=
  match s.rest with
  | [] => s.endLine
  | t :: _ => t.line

end Parser

abbrev Parser := EStateM Diagnostic Parser.State

namespace Parser

variable {α : Type}

/-- The next token, if any is left. -/
def peek? : Parser (Option Token) := fun s =>
  .ok s.rest.head? s

/-- Skips the next token. -/
def advance : Parser Unit := fun s =>
  .ok () { s with rest := s.rest.tail }

/-- Whether the next token is of a given form. -/
def nextIs (form : Token → Bool) : Parser Bool := fun s =>
  .ok (s.rest.head?.any form) s

/-- Reads the next token if it is of a given form. -/
def accept? (form : Token → Bool) : Parser (Option Token) := fun s =>
  match s.rest with
  | [] => .ok none s
  | t :: ts => if form t then .ok (some t) { s with rest := ts } else .ok none s

/-- Fails at the next token. -/
def fail (cause : SyntaxFault) : Parser α := fun s =>
  .error (.syntactic s.line cause) s

/-- Notes a diagnostic and goes on. -/
def note (line : Nat) (cause : SyntaxFault) : Parser Unit := fun s =>
  .ok () { s with diagnostics := s.diagnostics ++ [.syntactic line cause] }

/-- Notes a diagnostic at the next token and goes on. -/
def noteHere (cause : SyntaxFault) : Parser Unit := fun s =>
  note s.line cause s

/-- Reads a token of a given form or fails. -/
def expect (form : Token → Bool) (cause : SyntaxFault) : Parser Token := do
  match ← accept? form with
  | some t => return t
  | none => fail cause

def freshId : Parser ExprId := fun s =>
  .ok s.nextId { s with nextId := s.nextId + 1 }

/-- Parameter and argument lists should not be longer. -/
def maxEntries : Nat := 255

/-- Entries divided by commas, `count` of them having been read before. Each entry past the limit
is noted where it starts. -/
def entries (entry : Parser α) (tooMany : SyntaxFault) : Nat → Nat → Parser (List α)
  | room, count => do
    if maxEntries ≤ count then noteHere tooMany
    let first ← entry
    match room with
    | 0 => return [first]
    | room + 1 =>
      match ← accept? (·.isSymbol .comma) with
      | none => return [first]
      | some _ => return first :: (← entries entry tooMany room (count + 1))

/-- Entries divided by commas, none at all if a closing parenthesis comes first. -/
def entriesOrNone (entry : Parser α) (tooMany : SyntaxFault) (room : Nat) :
    Parser (List α) := do
  if ← nextIs (·.isSymbol .rightParen) then
    return []
  else
    entries entry tooMany room 0

/-- Items up to a token of a given form or the end. An item that was skipped leaves nothing. -/
def itemsUntil (stop : Token → Bool) (item : Parser (Option α)) : Nat → Parser (List α)
  | 0 => return []
  | room + 1 => do
    match ← peek? with
    | none => return []
    | some t =>
      if stop t then
        return []
      else
        let first ← item
        return first.toList ++ (← itemsUntil stop item room)

/-- Whether a statement starts with this token. -/
def startsStatement (t : Token) : Bool :=
  match t.kind with
  | .keyword .klasse => true
  | .keyword .funktion => true
  | .keyword .var => true
  | .keyword .fuer => true
  | .keyword .wenn => true
  | .keyword .waehrend => true
  | .keyword .drucke => true
  | .keyword .zurueckgeben => true
  | _ => false

/-- The tokens from the next statement on, where `previous` has just been read. -/
def statementBoundary (previous : Token) : List Token → List Token
  | [] => []
  | t :: ts =>
    if previous.isSymbol .semicolon || startsStatement t then t :: ts
    else statementBoundary t ts

/-- Skips one token and then all up to the next statement. -/
def synchronize : List Token → List Token
  | [] => []
  | t :: ts => statementBoundary t ts

/-- Notes a failure and goes on at the next statement. -/
def recover (parser : Parser α) : Parser (Option α) := fun s =>
  match parser s with
  | .ok a s => .ok (some a) s
  | .error d s =>
    .ok none { s with rest := synchronize s.rest, diagnostics := s.diagnostics ++ [d] }

end Parser
end GermanLox
