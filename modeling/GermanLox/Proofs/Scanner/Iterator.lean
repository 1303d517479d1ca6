import GermanLox.Source.Scan

/-!
# Scanning byte by byte

The same scanner over the bytes of a source, with a place that moves over them. It gives one item
at a call. Every look at a byte and every cut is at a place of the source, so a piece of scanning
need not have a result: it has none if it looks outside of the source, or cuts through a character.
It has none either if it runs out of room, where the room bounds how often each of its loops goes
round. Lines are counted where a line break is met, in the open or inside a text.
-/

namespace GermanLox

/-- A source, the places in it where the lexeme at hand starts and up to which it has been read, the
line of the latter, and the kind of the lexeme once it is known. Places are counted in bytes. -/
structure Scanner where
  source : String
  start : Nat
  curr : Nat
  line : Nat
  pending : Option TokenKind

namespace Scanner

def new (source : String) : Scanner :=
  ⟨source, 0, 0, 1, none⟩

/-- A piece of scanning. It ends with a value or with a fault, and in both cases at a place. -/
abbrev Action := ExceptT Item (StateT Scanner Option)

variable {α : Type}

/-- A piece of scanning that has no result. -/
def stuck : Action α := fun _ =>
  none

def read (f : Scanner → α) : Action α := fun s =>
  some (.ok (f s), s)

def change (f : Scanner → Scanner) : Action Unit := fun s =>
  some (.ok (), f s)

/-- Goes on only if there is a value. -/
def demand (f : Scanner → Option α) : Action α := fun s =>
  (f s).map fun a => (.ok a, s)

/-- Repeats a round for as long as it says so. -/
def repeatWhile (round : Action Bool) : Nat → Action Unit
  | 0 => stuck
  | room + 1 => do if ← round then repeatWhile round room else return ()

/-! ### Looking -/

def bytes (s : Scanner) : Array UInt8 :=
  s.source.toByteArray.data

def length (s : Scanner) : Nat :=
  s.bytes.size

def isAtEnd : Action Bool :=
  read fun s => s.length ≤ s.curr

/-- Takes a byte; no result at the end. -/
def advance : Action UInt8 := do
  let b ← demand fun s => s.bytes[s.curr]?
  change fun s => { s with curr := s.curr + 1 }
  return b

/-- The byte to come, or zero at the end. -/
def peek : Action UInt8 := do
  if ← isAtEnd then return 0 else demand fun s => s.bytes[s.curr]?

/-- The byte behind the one to come, or zero. -/
def peekNext : Action UInt8 := do
  if ← read (fun s => decide (s.length ≤ s.curr + 1)) then return 0
  else demand fun s => s.bytes[s.curr + 1]?

/-- The place of a source at some byte, if no character reaches across it. -/
def place? (source : String) (i : Nat) : Option source.Pos :=
  if h : String.Pos.Raw.IsValid source ⟨i⟩ then some ⟨⟨i⟩, h⟩ else none

def charAt (i : Nat) : Action (Option Char) :=
  read fun s => (place? s.source i).bind String.Pos.get?

/-- The text between two places; no result if one of them is none, or the second before the
first. -/
def slice (start stop : Scanner → Nat) : Action String :=
  demand fun s => do
    let p ← place? s.source (start s)
    let q ← place? s.source (stop s)
    if p ≤ q then some (s.source.extract p q) else none

/-- Takes a given byte if it is the one to come. -/
def matchByte (expected : UInt8) : Action Bool := do
  if ← isAtEnd then return false
  else if (← peek) = expected then
    let _ ← advance
    return true
  else return false

/-- Whether a byte is a character by itself, and one of a given form. -/
def asciiIs (form : Char → Bool) (b : UInt8) : Bool :=
  b < 0x80 && form (Char.ofUInt8 b)

/-! ### Lexemes -/

def fail (cause : LexicalFault) : Action α := do
  throw (.fault (← read line) cause)

def pend (kind : TokenKind) : Action Unit :=
  change fun s => { s with pending := some kind }

def nextLine : Action Unit :=
  change fun s => { s with line := s.line + 1 }

/-- Skips a comment, up to the line break that ends it. -/
def skipComment : Action Unit := do
  let ahead ← demand fun s =>
    if s.curr ≤ s.length then some (s.bytes.toList.drop s.curr) else none
  match ahead.idxOf? '\n'.toUInt8 with
  | some i => change fun s => { s with curr := s.curr + i }
  | none => change fun s => { s with curr := s.length }

/-- Takes a byte inside of a text, unless it is the end or a quote. -/
def stringRound : Action Bool := do
  if ← isAtEnd then return false
  else if (← peek) = '"'.toUInt8 then return false
  else if (← advance) = '\n'.toUInt8 then
    nextLine
    return true
  else return true

/-- The text behind an opening quote. -/
def parseString (room : Nat) : Action Unit := do
  repeatWhile stringRound room
  if ← isAtEnd then fail .unterminatedString
  else
    let _ ← advance
    let text ← slice (·.start + 1) (·.curr - 1)
    pend (.string text)

def digitRound : Action Bool := do
  if asciiIs Char.isDigit (← peek) then
    let _ ← advance
    return true
  else return false

/-- A point and the digits after it, if there is a digit after the point. -/
def takePlaces (room : Nat) : Action Unit := do
  if (← peek) = '.'.toUInt8 && asciiIs Char.isDigit (← peekNext) then
    let _ ← advance
    repeatWhile digitRound room
  else return ()

/-- The number whose first digit has been taken. -/
def parseNumber (room : Nat) : Action Unit := do
  repeatWhile digitRound room
  takePlaces room
  let text ← slice start curr
  pend (.number (Number.ofLexeme text.toList))

/-- Letters of more than one byte. -/
def isGermanLetter (c : Char) : Bool :=
  c ∈ ['ä', 'ö', 'ü', 'Ä', 'Ö', 'Ü', 'ß']

/-- Takes a character of a word: a byte, or all bytes of a letter that has several. -/
def wordRound : Action Bool := do
  let b ← peek
  if asciiIs (fun c => c.isAlphanum || c = '_') b then
    let _ ← advance
    return true
  else if 0x80 ≤ b then
    match ← charAt (← read curr) with
    | some c =>
      if isGermanLetter c then
        change fun s => { s with curr := s.curr + c.utf8Size }
        return true
      else return false
    | none => return false
  else return false

/-- The word whose first letter has been taken, reserved or a name. -/
def parseIdentifier (room : Nat) : Action Unit := do
  repeatWhile wordRound room
  let text ← slice start curr
  match Keyword.ofSpelling? text with
  | some k => pend (.keyword k)
  | none => pend .identifier

/-- Symbols that no other symbol starts with. -/
def punctuator? : Char → Option Symbol
  | '(' => some .leftParen
  | ')' => some .rightParen
  | '\x7b' => some .leftBrace
  | '\x7d' => some .rightBrace
  | ',' => some .comma
  | '.' => some .dot
  | '-' => some .minus
  | '+' => some .plus
  | ';' => some .semicolon
  | '*' => some .star
  | _ => none

/-- Symbols that an equals sign can be added to, and what they are with it. -/
def operator? : Char → Option (Symbol × Symbol)
  | '!' => some (.bang, .bangEqual)
  | '=' => some (.equal, .equalEqual)
  | '<' => some (.less, .lessEqual)
  | '>' => some (.greater, .greaterEqual)
  | _ => none

/-- The character of several bytes whose first one has been taken. -/
def scanWide (room : Nat) : Action Unit := do
  let c := (← charAt (← read start)).getD '�'
  change fun s => { s with curr := s.start + c.utf8Size }
  if isGermanLetter c then parseIdentifier room else fail .unexpectedCharacter

/-- The character of one byte that has been taken. -/
def scanAscii (room : Nat) (c : Char) : Action Unit := do
  match punctuator? c with
  | some s => pend (.symbol s)
  | none =>
    match operator? c with
    | some (alone, withEqual) =>
      if ← matchByte '='.toUInt8 then pend (.symbol withEqual) else pend (.symbol alone)
    | none =>
      if c = ' ' || c = '\r' || c = '\t' then return ()
      else if c = '\n' then nextLine
      else if c = '/' then
        if ← matchByte '/'.toUInt8 then skipComment else pend (.symbol .slash)
      else if c = '"' then parseString room
      else if c.isDigit then parseNumber room
      else if c.isAlpha || c = '_' then parseIdentifier room
      else fail .unexpectedCharacter

/-- Takes a lexeme. Its kind is pending afterwards, if it is more than a blank or a comment. -/
def scanToken (room : Nat) : Action Unit := do
  let b ← advance
  if b < 0x80 then scanAscii room (Char.ofUInt8 b) else scanWide room

/-! ### Calls -/

/-- Gives the token whose kind is pending, or goes on if there is none. -/
def pendingOr (more : Action (Option Item)) : Action (Option Item) := do
  match ← read pending with
  | some kind =>
    change fun s => { s with pending := none }
    let text ← slice start curr
    return some (.token ⟨kind, text, ← read line⟩)
  | none => more

/-- The scanner before a lexeme. -/
def begun (s : Scanner) : Scanner :=
  { s with start := s.curr, pending := none }

/-- Scans on up to an item. There is none once the end has been given. -/
def nextItem : Nat → Action (Option Item)
  | 0 => stuck
  | room + 1 => do
    let s ← read id
    if s.length < s.curr then return none
    else if s.curr = s.length then
      change fun s => { s with curr := s.curr + 1 }
      return some (.token ⟨.eof, "", s.line⟩)
    else
      change begun
      scanToken room
      pendingOr (nextItem room)

/-- What a call gives: an item, or the fault that it ended with. -/
def answer : Except Item (Option Item) → Option Item
  | .ok item => item
  | .error fault => some fault

/-- A call. -/
def next (room : Nat) (s : Scanner) : Option (Option Item × Scanner) :=
  (nextItem room s).map (Prod.map answer id)

/-- The call after so many others. -/
def call (room : Nat) : Nat → Scanner → Option (Option Item × Scanner)
  | 0, s => s.next room
  | n + 1, s => (s.next room).bind fun answered => call room n answered.2

end Scanner
end GermanLox
