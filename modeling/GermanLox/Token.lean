import GermanLox.Number.Decimal

/-!
# Tokens

The words of the language: symbols, sixteen reserved words, names, texts and numbers. A token is
a kind with the lexeme it was written as and the line it ends on.
-/

namespace GermanLox

inductive Symbol where
  | leftParen
  | rightParen
  | leftBrace
  | rightBrace
  | comma
  | dot
  | minus
  | plus
  | semicolon
  | slash
  | star
  | bang
  | bangEqual
  | equal
  | equalEqual
  | greater
  | greaterEqual
  | less
  | lessEqual
deriving DecidableEq

namespace Symbol

/-- The upper-case name of a symbol. -/
def name : Symbol → String
  | leftParen => "LEFT_PAREN"
  | rightParen => "RIGHT_PAREN"
  | leftBrace => "LEFT_BRACE"
  | rightBrace => "RIGHT_BRACE"
  | comma => "COMMA"
  | dot => "DOT"
  | minus => "MINUS"
  | plus => "PLUS"
  | semicolon => "SEMICOLON"
  | slash => "SLASH"
  | star => "STAR"
  | bang => "BANG"
  | bangEqual => "BANG_EQUAL"
  | equal => "EQUAL"
  | equalEqual => "EQUAL_EQUAL"
  | greater => "GREATER"
  | greaterEqual => "GREATER_EQUAL"
  | less => "LESS"
  | lessEqual => "LESS_EQUAL"

def spelling : Symbol → String
  | leftParen => "("
  | rightParen => ")"
  | leftBrace => "\x7b"
  | rightBrace => "\x7d"
  | comma => ","
  | dot => "."
  | minus => "-"
  | plus => "+"
  | semicolon => ";"
  | slash => "/"
  | star => "*"
  | bang => "!"
  | bangEqual => "!="
  | equal => "="
  | equalEqual => "=="
  | greater => ">"
  | greaterEqual => ">="
  | less => "<"
  | lessEqual => "<="

def all : List Symbol :=
  [leftParen, rightParen, leftBrace, rightBrace, comma, dot, minus, plus, semicolon, slash, star,
    bang, bangEqual, equal, equalEqual, greater, greaterEqual, less, lessEqual]

theorem mem_all (s : Symbol) : s ∈ all := by
  cases s <;> decide

theorem spelling_injective {s t : Symbol} (h : s.spelling = t.spelling) : s = t := by
  revert h
  cases s <;> cases t <;> decide

/-- The symbol spelled this way. -/
def ofSpelling? (text : String) : Option Symbol :=
  all.find? (·.spelling = text)

theorem ofSpelling?_eq_some_iff {text : String} {s : Symbol} :
    ofSpelling? text = some s ↔ s.spelling = text := by
  constructor
  · intro h
    simpa using List.find?_some h
  · intro h
    obtain ⟨t, ht⟩ : ∃ t, ofSpelling? text = some t :=
      Option.isSome_iff_exists.mp (by
        rw [ofSpelling?, List.find?_isSome]
        exact ⟨s, mem_all s, by simpa using h⟩)
    have hs : t.spelling = text := by simpa using List.find?_some ht
    rw [ht, spelling_injective (hs.trans h.symm)]

end Symbol

inductive Keyword where
  | und
  | klasse
  | sonst
  | falsch
  | fuer
  | funktion
  | wenn
  | nichts
  | oder
  | drucke
  | zurueckgeben
  | super
  | dies
  | wahr
  | var
  | waehrend
deriving DecidableEq

namespace Keyword

def spelling : Keyword → String
  | und => "und"
  | klasse => "klasse"
  | sonst => "sonst"
  | falsch => "falsch"
  | fuer => "für"
  | funktion => "funktion"
  | wenn => "wenn"
  | nichts => "nichts"
  | oder => "oder"
  | drucke => "drucke"
  | zurueckgeben => "zurückgeben"
  | super => "super"
  | dies => "dies"
  | wahr => "wahr"
  | var => "var"
  | waehrend => "während"

/-- The upper-case name of a reserved word, by its role. -/
def name : Keyword → String
  | und => "AND"
  | klasse => "CLASS"
  | sonst => "ELSE"
  | falsch => "FALSE"
  | fuer => "FOR"
  | funktion => "FUN"
  | wenn => "IF"
  | nichts => "NIL"
  | oder => "OR"
  | drucke => "PRINT"
  | zurueckgeben => "RETURN"
  | super => "SUPER"
  | dies => "THIS"
  | wahr => "TRUE"
  | var => "VAR"
  | waehrend => "WHILE"

def all : List Keyword :=
  [und, klasse, sonst, falsch, fuer, funktion, wenn, nichts, oder, drucke, zurueckgeben, super,
    dies, wahr, var, waehrend]

theorem mem_all (k : Keyword) : k ∈ all := by
  cases k <;> decide

theorem spelling_injective {j k : Keyword} (h : j.spelling = k.spelling) : j = k := by
  revert h
  cases j <;> cases k <;> decide

/-- The reserved word spelled this way. -/
def ofSpelling? (word : String) : Option Keyword :=
  all.find? (·.spelling = word)

theorem ofSpelling?_eq_some_iff {word : String} {k : Keyword} :
    ofSpelling? word = some k ↔ k.spelling = word := by
  constructor
  · intro h
    simpa using List.find?_some h
  · intro h
    obtain ⟨j, hj⟩ : ∃ j, ofSpelling? word = some j :=
      Option.isSome_iff_exists.mp (by
        rw [ofSpelling?, List.find?_isSome]
        exact ⟨k, mem_all k, by simpa using h⟩)
    have hs : j.spelling = word := by simpa using List.find?_some hj
    rw [hj, spelling_injective (hs.trans h.symm)]

end Keyword

inductive TokenKind where
  | symbol (s : Symbol)
  | keyword (k : Keyword)
  | identifier
  | string (text : String)
  | number (value : Float)
  | eof
deriving DecidableEq

namespace TokenKind

def name : TokenKind → String
  | symbol s => s.name
  | keyword k => k.name
  | identifier => "IDENTIFIER"
  | string _ => "STRING"
  | number _ => "NUMBER"
  | eof => "EOF"

/-- Equality of kinds, whatever text or number they carry. -/
def sameAs : TokenKind → TokenKind → Bool
  | symbol s, symbol t => s = t
  | keyword j, keyword k => j = k
  | identifier, identifier => true
  | string _, string _ => true
  | number _, number _ => true
  | eof, eof => true
  | _, _ => false

end TokenKind

structure Token where
  kind : TokenKind
  lexeme : String
  line : Nat
deriving DecidableEq

namespace Token

/-- Equality of tokens, whatever text or number their kinds carry. -/
def sameAs (a b : Token) : Bool :=
  a.kind.sameAs b.kind && a.lexeme = b.lexeme && a.line = b.line

/-- Whether the token is a given symbol. -/
def isSymbol (s : Symbol) (t : Token) : Bool :=
  t.kind = .symbol s

/-- Whether the token is a given reserved word. -/
def isKeyword (k : Keyword) (t : Token) : Bool :=
  t.kind = .keyword k

def isIdentifier (t : Token) : Bool :=
  t.kind = .identifier

/-- What a kind carries. Whole numbers keep a decimal place while they are short. -/
def payloadText : TokenKind → String
  | .string text => text
  | .number value =>
    match Number.whole? value with
    | some n => n.repr ++ ".0"
    | none => Number.plain value
  | _ => "null"

/-- Kind, lexeme and payload, divided by blanks. -/
def describe (t : Token) : String :=
  t.kind.name ++ " " ++ t.lexeme ++ " " ++ payloadText t.kind

end Token
end GermanLox
