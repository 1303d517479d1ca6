import GermanLox.Parser.Basic
import Mathlib.Tactic.Common

/-!
# The grammar

The grammar of the language in extended Backus–Naur form, as data, and what a grammar derives. The
rules are those of the language's documentation. Lists of parameters and of arguments are bounded;
otherwise nothing here depends on how a program is read.
-/

namespace GermanLox

/-- A right-hand side over rules with names in `ν`. -/
inductive Ebnf (ν : Type) where
  | terminal (accepts : Token → Bool)
  | rule (name : ν)
  | seq (first second : Ebnf ν)
  | alt (first second : Ebnf ν)
  | opt (inner : Ebnf ν)
  | many (inner : Ebnf ν)
  | upTo (limit : Nat) (inner : Ebnf ν)

namespace Ebnf

variable {ν : Type} {rules : ν → Ebnf ν}

/-- One after the other. -/
instance : Append (Ebnf ν) := ⟨seq⟩

/-- One or the other. -/
instance : OrOp (Ebnf ν) := ⟨alt⟩

/-- What a right-hand side derives by a set of rules. -/
inductive Derives (rules : ν → Ebnf ν) : Ebnf ν → List Token → Prop
  | terminal {accepts t} (h : accepts t) : Derives rules (.terminal accepts) [t]
  | rule {name ts} (h : Derives rules (rules name) ts) : Derives rules (.rule name) ts
  | seq {a b ts us} (ha : Derives rules a ts) (hb : Derives rules b us) :
    Derives rules (a ++ b) (ts ++ us)
  | left {a b ts} (h : Derives rules a ts) : Derives rules (a ||| b) ts
  | right {a b ts} (h : Derives rules b ts) : Derives rules (a ||| b) ts
  | absent {a} : Derives rules (.opt a) []
  | present {a ts} (h : Derives rules a ts) : Derives rules (.opt a) ts
  | done {a} : Derives rules (.many a) []
  | again {a ts us} (ha : Derives rules a ts) (hs : Derives rules (.many a) us) :
    Derives rules (.many a) (ts ++ us)
  | enough {limit a} : Derives rules (.upTo limit a) []
  | further {limit a ts us} (ha : Derives rules a ts) (hs : Derives rules (.upTo limit a) us) :
    Derives rules (.upTo (limit + 1) a) (ts ++ us)

/-- What a right-hand side stands for under a meaning of the names. -/
def Yields (meaning : ν → List Token → Prop) : Ebnf ν → List Token → Prop
  | terminal accepts, ts => ∃ t, accepts t ∧ ts = [t]
  | rule name, ts => meaning name ts
  | seq a b, ts => ∃ us vs, a.Yields meaning us ∧ b.Yields meaning vs ∧ ts = us ++ vs
  | alt a b, ts => a.Yields meaning ts ∨ b.Yields meaning ts
  | opt a, ts => ts = [] ∨ a.Yields meaning ts
  | many a, ts => ∃ parts : List (List Token),
    (∀ part ∈ parts, a.Yields meaning part) ∧ ts = parts.flatten
  | upTo limit a, ts => ∃ parts : List (List Token),
    (∀ part ∈ parts, a.Yields meaning part) ∧ parts.length ≤ limit ∧ ts = parts.flatten

/-- A meaning that is closed under the rules holds of all that is derived. -/
theorem Derives.yields {meaning : ν → List Token → Prop}
    (hclosed : ∀ name ts, (rules name).Yields meaning ts → meaning name ts) {e : Ebnf ν}
    {ts : List Token} (h : Derives rules e ts) : e.Yields meaning ts := by
  induction h with
  | terminal h => exact ⟨_, h, rfl⟩
  | rule _ ih => exact hclosed _ _ ih
  | seq _ _ iha ihb => exact ⟨_, _, iha, ihb, rfl⟩
  | left _ ih => exact .inl ih
  | right _ ih => exact .inr ih
  | absent => exact .inl rfl
  | present _ ih => exact .inr ih
  | done => exact ⟨[], by simp, rfl⟩
  | @again a ts us _ _ iha ihs =>
    obtain ⟨parts, hparts, rfl⟩ := ihs
    exact ⟨ts :: parts, by simpa using ⟨iha, hparts⟩, by simp⟩
  | enough => exact ⟨[], by simp, by simp, rfl⟩
  | @further limit a ts us _ _ iha ihs =>
    obtain ⟨parts, hparts, hlen, rfl⟩ := ihs
    exact ⟨ts :: parts, by simpa using ⟨iha, hparts⟩, by simpa using hlen, by simp⟩

/-- A repetition can go on at its end. -/
lemma Derives.many_snoc {a : Ebnf ν} {ts us : List Token} (hs : Derives rules (.many a) ts)
    (ha : Derives rules a us) : Derives rules (.many a) (ts ++ us) := by
  generalize he : Ebnf.many a = e at hs
  induction hs with
  | done =>
    obtain rfl := Ebnf.many.inj he
    simpa using Derives.again ha .done
  | again hb _ _ ih =>
    obtain rfl := Ebnf.many.inj he
    simpa using Derives.again hb (ih rfl)
  | _ => cases he

end Ebnf

namespace Grammar

open Ebnf

inductive Rule where
  | program
  | declaration
  | classDecl
  | funDecl
  | function
  | parameters
  | varDecl
  | statement
  | exprStmt
  | forStmt
  | ifStmt
  | printStmt
  | returnStmt
  | whileStmt
  | block
  | expression
  | assignment
  | logicOr
  | logicAnd
  | equality
  | comparison
  | term
  | factor
  | unary
  | call
  | arguments
  | primary

def symbol (s : Symbol) : Ebnf Rule :=
  .terminal (·.isSymbol s)

def word (k : Keyword) : Ebnf Rule :=
  .terminal (·.isKeyword k)

def ident : Ebnf Rule :=
  .terminal (·.isIdentifier)

/-- A number. -/
def number : Ebnf Rule :=
  .terminal fun t => match t.kind with
    | .number _ => true
    | _ => false

/-- A text in quotes. -/
def text : Ebnf Rule :=
  .terminal fun t => match t.kind with
    | .string _ => true
    | _ => false

/-- The end mark. -/
def eof : Ebnf Rule :=
  .terminal fun t => t.kind = .eof

/-- A list divided by commas, with at most as many entries as a list may have. -/
def entries (entry : Ebnf Rule) : Ebnf Rule :=
  entry ++ upTo (Parser.maxEntries - 1) (symbol .comma ++ entry)

def rules : Rule → Ebnf Rule
  | .program => many (rule .declaration) ++ eof
  | .declaration => rule .classDecl ||| rule .funDecl ||| rule .varDecl ||| rule .statement
  | .classDecl => word .klasse ++ ident ++ opt (symbol .less ++ ident) ++ symbol .leftBrace ++
      many (rule .function) ++ symbol .rightBrace
  | .funDecl => word .funktion ++ rule .function
  | .function => ident ++ symbol .leftParen ++ opt (rule .parameters) ++ symbol .rightParen ++
      rule .block
  | .parameters => entries ident
  | .varDecl => word .var ++ ident ++ opt (symbol .equal ++ rule .expression) ++ symbol .semicolon
  | .statement => rule .exprStmt ||| rule .forStmt ||| rule .ifStmt ||| rule .printStmt |||
      rule .returnStmt ||| rule .whileStmt ||| rule .block
  | .exprStmt => rule .expression ++ symbol .semicolon
  | .forStmt => word .fuer ++ symbol .leftParen ++
      (rule .varDecl ||| rule .exprStmt ||| symbol .semicolon) ++
      opt (rule .expression) ++ symbol .semicolon ++ opt (rule .expression) ++ symbol .rightParen ++
      rule .statement
  | .ifStmt => word .wenn ++ symbol .leftParen ++ rule .expression ++ symbol .rightParen ++
      rule .statement ++ opt (word .sonst ++ rule .statement)
  | .printStmt => word .drucke ++ rule .expression ++ symbol .semicolon
  | .returnStmt => word .zurueckgeben ++ opt (rule .expression) ++ symbol .semicolon
  | .whileStmt => word .waehrend ++ symbol .leftParen ++ rule .expression ++ symbol .rightParen ++
      rule .statement
  | .block => symbol .leftBrace ++ many (rule .declaration) ++ symbol .rightBrace
  | .expression => rule .assignment
  | .assignment => opt (rule .call ++ symbol .dot) ++ ident ++ symbol .equal ++ rule .assignment |||
      rule .logicOr
  | .logicOr => rule .logicAnd ++ many (word .oder ++ rule .logicAnd)
  | .logicAnd => rule .equality ++ many (word .und ++ rule .equality)
  | .equality => rule .comparison ++
      many ((symbol .bangEqual ||| symbol .equalEqual) ++ rule .comparison)
  | .comparison => rule .term ++
      many ((symbol .greater ||| symbol .greaterEqual ||| symbol .less ||| symbol .lessEqual) ++
        rule .term)
  | .term => rule .factor ++ many ((symbol .minus ||| symbol .plus) ++ rule .factor)
  | .factor => rule .unary ++ many ((symbol .slash ||| symbol .star) ++ rule .unary)
  | .unary => (symbol .bang ||| symbol .minus) ++ rule .unary ||| rule .call
  | .call => rule .primary ++
      many (symbol .leftParen ++ opt (rule .arguments) ++ symbol .rightParen |||
        symbol .dot ++ ident)
  | .arguments => entries (rule .expression)
  | .primary => number ||| text ||| word .wahr ||| word .falsch ||| word .nichts |||
      symbol .leftParen ++ rule .expression ++ symbol .rightParen |||
      word .super ++ symbol .dot ++ ident ||| word .dies ||| ident

/-- Whether the rules derive a list of tokens from a rule. -/
def Derivable (name : Rule) (ts : List Token) : Prop :=
  Derives rules (rule name) ts

end Grammar
end GermanLox
