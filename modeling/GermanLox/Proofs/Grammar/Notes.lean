import GermanLox.Proofs.Cursor.Bounds
import GermanLox.Proofs.Grammar.Exact
import GermanLox.Proofs.Grammar.ParseTree

/-!
# What is noted of a parse tree

Some tokens are read to their end although they break a rule: a list of arguments or parameters
past the limit, and an assignment to what takes none. For every parse tree of a grammar without
these two rules the diagnostics are known beforehand, in their order, and there are no others.
-/

namespace GermanLox

namespace ParseTree

open Grammar

mutual

/-- Whether the expression of a parse tree is a name or a property. A call is one if the last of its
suffixes is a property name. -/
def isTarget : ParseTree Rule → Bool
  | token t => t.isIdentifier
  | node .call parts => endsInTarget parts
  | node _ [p] => p.isTarget
  | node _ _ => false

def endsInTarget : List (ParseTree Rule) → Bool
  | [] => false
  | [p] => p.isTarget
  | _ :: ps => endsInTarget ps

end

lemma isTarget_single {name : Rule} (hname : name ≠ .call) (p : ParseTree Rule) :
    (node name [p]).isTarget = p.isTarget := by
  cases name with
  | call => exact absurd rfl hname
  | _ => rfl

lemma isTarget_several {name : Rule} (hname : name ≠ .call) (p q : ParseTree Rule)
    (ps : List (ParseTree Rule)) : (node name (p :: q :: ps)).isTarget = false := by
  cases name with
  | call => exact absurd rfl hname
  | _ => rfl

lemma endsInTarget_append (ps : List (ParseTree Rule)) (p : ParseTree Rule) :
    endsInTarget (ps ++ [p]) = p.isTarget := by
  induction ps with
  | nil => rfl
  | cons q ps ih =>
    obtain ⟨r, rs, hrs⟩ := List.exists_cons_of_ne_nil (l := ps ++ [p]) (by simp)
    rw [List.cons_append, hrs, ← ih, hrs]
    rfl

/-- The equals sign of an assignment to what takes none. -/
def badSign? : ParseTree Rule → Option Token
  | node .assignment [left, token sign, _] => if left.isTarget then none else some sign
  | _ => none

def isComma : ParseTree Rule → Bool
  | token t => t.isSymbol .comma
  | node .. => false

@[simp] lemma isComma_token (t : Token) : isComma (token t) = t.isSymbol .comma :=
  rfl

@[simp] lemma isComma_node (name : Rule) (parts : List (ParseTree Rule)) :
    isComma (node name parts) = false :=
  rfl

mutual

/-- What is to be noted of a parse tree, in order: the entries of a list past the limit where they
start, and assignments to what takes none at their signs. -/
def notes : ParseTree Rule → List Diagnostic
  | token _ => []
  | node .arguments parts => entryNotes .tooManyArguments 0 parts
  | node .parameters parts => entryNotes .tooManyParameters 0 parts
  | node name parts =>
    notesAll parts ++
      (badSign? (node name parts)).toList.map (.syntactic ·.line .invalidAssignmentTarget)

def notesAll : List (ParseTree Rule) → List Diagnostic
  | [] => []
  | p :: ps => p.notes ++ notesAll ps

/-- Notes of entries divided by commas, with `count` of them before. -/
def entryNotes (cause : SyntaxFault) : Nat → List (ParseTree Rule) → List Diagnostic
  | _, [] => []
  | count, p :: ps =>
    if p.isComma then entryNotes cause (count + 1) ps
    else Reading.overlong cause count p.tokens ++ p.notes ++ entryNotes cause count ps

end

@[simp] lemma notes_token (t : Token) : (token t).notes = [] :=
  rfl

@[simp] lemma notesAll_nil : notesAll [] = [] :=
  rfl

@[simp] lemma notesAll_cons (p : ParseTree Rule) (ps : List (ParseTree Rule)) :
    notesAll (p :: ps) = p.notes ++ notesAll ps :=
  rfl

@[simp] lemma notesAll_append (ps qs : List (ParseTree Rule)) :
    notesAll (ps ++ qs) = notesAll ps ++ notesAll qs := by
  induction ps with
  | nil => rfl
  | cons p ps ih => simp [ih]

/-- Of all other rules nothing is noted by itself. -/
@[simp] lemma notes_node {name : Rule} (harguments : name ≠ .arguments)
    (hparameters : name ≠ .parameters) (hassignment : name ≠ .assignment)
    (parts : List (ParseTree Rule)) : (node name parts).notes = notesAll parts := by
  cases name with
  | arguments => exact absurd rfl harguments
  | parameters => exact absurd rfl hparameters
  | assignment => exact absurd rfl hassignment
  | _ => exact List.append_nil _

/-- Parts that commas divide into entries. -/
inductive Divided : List (ParseTree Rule) → List (ParseTree Rule) → Prop
  | last {entry} (hentry : isComma entry = false) : Divided [entry] [entry]
  | more {entry comma parts es} (hentry : isComma entry = false) (hcomma : comma.isSymbol .comma)
    (h : Divided parts es) : Divided (entry :: token comma :: parts) (entry :: es)

end ParseTree

namespace Reading

/-- A `sonst` behind a statement with an open `wenn` goes to the innermost one. -/
lemma Statement.attach {dangling k ts s k' ds} (h : Statement dangling k ts s k' ds)
    (hopen : dangling = true) {other : Token} (hother : other.isKeyword .sonst)
    {vs : List Token} {ds' : List Diagnostic}
    (helse : ∀ i, ∃ d s' i', Statement d i vs s' i' ds') :
    ∃ d r k'', Statement d k (ts ++ other :: vs) r k'' (ds ++ ds') := by
  match h with
  | .expression _ _ => cases hopen
  | .print _ _ _ => cases hopen
  | .ret _ _ _ => cases hopen
  | .block _ _ _ => cases hopen
  | .loop hkeyword hopening he hclosing hbody =>
    obtain ⟨d, r, k'', hr⟩ := hbody.attach hopen hother helse
    have hloop := Statement.loop hkeyword hopening he hclosing hr
    exact ⟨_, _, _, by simpa using hloop⟩
  | .count hkeyword hopening hfirst hcondition hsemicolon hincrement hclosing hbody =>
    obtain ⟨d, r, k'', hr⟩ := hbody.attach hopen hother helse
    have hcount := Statement.count hkeyword hopening hfirst hcondition hsemicolon hincrement
      hclosing hr
    exact ⟨_, _, _, by simpa using hcount⟩
  | @Statement.ifThen inner _ _ _ _ _ _ _ _ _ _ _ _ hkeyword hopening he hclosing hthen =>
    by_cases hinner : inner = true
    · obtain ⟨d, r, k'', hr⟩ := hthen.attach hinner hother helse
      have hif := Statement.ifThen hkeyword hopening he hclosing hr
      exact ⟨_, _, _, by simpa using hif⟩
    · obtain rfl : inner = false := by simpa using hinner
      obtain ⟨d, r, k'', hr⟩ := helse k'
      exact ⟨_, _, _, .ifElse hkeyword hopening he hclosing hthen hother hr⟩
  | .ifElse hkeyword hopening he hclosing hthen hother' helse' =>
    obtain ⟨d, r, k'', hr⟩ := helse'.attach hopen hother helse
    have hif := Statement.ifElse hkeyword hopening he hclosing hthen hother' hr
    exact ⟨_, _, _, by simpa using hif⟩

end Reading

namespace Grammar

open Ebnf GermanLox.Reading GermanLox.ParseTree

/-- What is read from some tokens, from any number on. -/
def Readable {α : Type} (R : Nat → List Token → α → Nat → List Diagnostic → Prop)
    (ts : List Token) (ds : List Diagnostic) : Prop :=
  ∀ k, ∃ a k', R k ts a k' ds

/-- The same for an expression that may be a target. -/
def ReadsTarget (R : Nat → List Token → Expr → Nat → List Diagnostic → Prop) (p : ParseTree Rule) :
    Prop :=
  ∀ k, ∃ e k', R k p.tokens e k' p.notes ∧ e.isTarget = p.isTarget

/-- The same for what may dangle or not. -/
def ReadsEither (R : Bool → Nat → List Token → Stmt → Nat → List Diagnostic → Prop)
    (p : ParseTree Rule) : Prop :=
  ∀ k, ∃ dangling s k', R dangling k p.tokens s k' p.notes

/-- What a rule stands for: parse trees that are read as its kind, with the notes that are due. -/
def Reads : Rule → ParseTree Rule → Prop
  | .program, p => ∃ us mark, p.tokens = us ++ [mark] ∧ mark.kind = .eof ∧
    Readable Declarations us p.notes
  | .declaration, p => ReadsEither Declaration p
  | .classDecl, p => Readable (Declaration false) p.tokens p.notes
  | .funDecl, p => Readable (Declaration false) p.tokens p.notes
  | .function, p => Readable Function p.tokens p.notes
  | .parameters, p => ∃ names, Names 0 p.tokens names p.notes
  | .varDecl, p => ∃ keyword us, p.tokens = keyword :: us ∧ keyword.isKeyword .var ∧
    Readable Variable us p.notes
  | .statement, p => ReadsEither Statement p
  | .exprStmt, p => ∃ us semicolon, p.tokens = us ++ [semicolon] ∧ semicolon.isSymbol .semicolon ∧
    Readable Expression us p.notes
  | .forStmt, p => ReadsEither Statement p
  | .ifStmt, p => ReadsEither Statement p
  | .printStmt, p => Readable (Statement false) p.tokens p.notes
  | .returnStmt, p => Readable (Statement false) p.tokens p.notes
  | .whileStmt, p => ReadsEither Statement p
  | .block, p => ∃ opening us closing, p.tokens = opening :: us ++ [closing] ∧
    opening.isSymbol .leftBrace ∧ closing.isSymbol .rightBrace ∧ Readable Declarations us p.notes
  | .expression, p => Readable Expression p.tokens p.notes
  | .assignment, p => Readable Expression p.tokens p.notes
  | .logicOr, p => ReadsTarget (Operation Precedence.tower) p
  | .logicAnd, p => ReadsTarget (Operation [.conjunction, .equality, .comparison, .term, .factor]) p
  | .equality, p => ReadsTarget (Operation [.equality, .comparison, .term, .factor]) p
  | .comparison, p => ReadsTarget (Operation [.comparison, .term, .factor]) p
  | .term, p => ReadsTarget (Operation [.term, .factor]) p
  | .factor, p => ReadsTarget (Operation [.factor]) p
  | .unary, p => ReadsTarget Unary p
  | .call, p => ReadsTarget Call p
  | .arguments, p => Readable (Entries 0) p.tokens p.notes
  | .primary, p => ReadsTarget Primary p

variable {parts : List (ParseTree Rule)}

lemma at?_of_fits {p : Precedence} (h : (operator p).Fits Reads parts) :
    ∃ t op, parts = [token t] ∧ Operator.at? p t = some op := by
  have hsign : (operator p).IsToken := by cases p <;> simp [operator, symbol, word, IsToken]
  obtain ⟨t, hparts, ht⟩ := h.yields_of_isToken hsign
  obtain ⟨t', node, heq, hnode⟩ := sign_of_yields ht
  obtain ⟨op, hop, -⟩ := Tree.sign_iff.mp hnode
  obtain rfl : t = t' := by simpa using heq
  exact ⟨t, op, hparts, hop⟩

/-- Operands with signs of one level between them, grouped to the left. With a sign they are no
target. -/
lemma exists_operation_reading {p : Precedence} {ps : List Precedence} {name : Rule}
    (hname : ∀ q, Reads name q → ReadsTarget (Operation ps) q)
    {parts : List (List (ParseTree Rule))}
    (hparts : ∀ part ∈ parts, (operator p ++ rule name).Fits Reads part) {k k₁ : Nat}
    {us : List Token} {left : Expr} {ds : List Diagnostic}
    (hleft : Operation (p :: ps) k us left k₁ ds) :
    ∃ e k', Operation (p :: ps) k (us ++ tokensAll parts.flatten) e k'
        (ds ++ notesAll parts.flatten) ∧
      e.isTarget = (parts.isEmpty && left.isTarget) := by
  induction parts generalizing us left k₁ ds with
  | nil => exact ⟨left, k₁, by simpa using hleft, rfl⟩
  | cons part parts ih =>
    obtain ⟨_, _, hsign, ⟨inner, hinner, rfl⟩, rfl⟩ := hparts part List.mem_cons_self
    obtain ⟨t, op, rfl, hop⟩ := at?_of_fits hsign
    obtain ⟨right, k₂, hright, -⟩ := hname _ hinner k₁
    obtain ⟨e, k', he, htarget⟩ :=
      ih (fun part hpart => hparts part (List.mem_cons_of_mem _ hpart)) (hleft.apply hop hright)
    refine ⟨e, k', by simpa using he, ?_⟩
    rw [htarget, Operator.not_isTarget_apply]
    simp

lemma Rule.ofLevels_ne (ps : List Precedence) :
    Rule.ofLevels ps ≠ .arguments ∧ Rule.ofLevels ps ≠ .parameters ∧
      Rule.ofLevels ps ≠ .assignment ∧ Rule.ofLevels ps ≠ .call := by
  cases ps with
  | nil => simp [Rule.ofLevels]
  | cons p ps => cases p <;> simp [Rule.ofLevels]

/-- One level of operators over the tighter ones. -/
lemma reads_level (p : Precedence) {ps : List Precedence}
    (h : (rule (Rule.ofLevels ps) ++ many (operator p ++ rule (Rule.ofLevels ps))).Fits Reads parts)
    (hinner : ∀ q, Reads (.ofLevels ps) q → ReadsTarget (Operation ps) q) :
    ReadsTarget (Operation (p :: ps)) (.node (.ofLevels (p :: ps)) parts) := by
  obtain ⟨harguments, hparameters, hassignment, hcall⟩ := Rule.ofLevels_ne (p :: ps)
  intro k
  obtain ⟨_, _, ⟨left, hleft, rfl⟩, ⟨rights, hrights, rfl⟩, rfl⟩ := h
  obtain ⟨e, k₁, he, htarget⟩ := hinner _ hleft k
  obtain ⟨e', k', he', htarget'⟩ := exists_operation_reading hinner hrights (.operand he)
  refine ⟨e', k', by simpa [harguments, hparameters, hassignment] using he', ?_⟩
  rw [htarget', htarget]
  cases rights with
  | nil => exact (isTarget_single hcall _).symm
  | cons part rights =>
    obtain ⟨_, _, hsign, -, rfl⟩ := hrights part List.mem_cons_self
    obtain ⟨t, op, rfl, -⟩ := at?_of_fits hsign
    exact (isTarget_several hcall _ _ _).symm

lemma reads_unary (h : ((rules .unary).unbounded).Fits Reads parts) :
    Reads .unary (.node .unary parts) := by
  intro k
  rcases h with ⟨_, _, ht, ⟨inner, hinner, rfl⟩, rfl⟩ | ⟨inner, hinner, rfl⟩
  · obtain ⟨e, k', he, -⟩ := hinner k
    rcases ht with ⟨t, ht, rfl⟩ | ⟨t, ht, rfl⟩
    · have hop : UnaryOp.ofKind? t.kind = some .not := by rw [eq_symbol ht]; rfl
      exact ⟨_, _, by simpa using Unary.sign hop he, rfl⟩
    · have hop : UnaryOp.ofKind? t.kind = some .negate := by rw [eq_symbol ht]; rfl
      exact ⟨_, _, by simpa using Unary.sign hop he, rfl⟩
  · obtain ⟨e, k', he, htarget⟩ := hinner k
    exact ⟨e, k', by simpa using Unary.call he, htarget⟩

/-- Suffixes behind a call, grouped to the left. It is a target if the last one is a property. -/
lemma exists_call_reading {parts : List (List (ParseTree Rule))}
    (hparts : ∀ part ∈ parts, (symbol .leftParen ++ opt (rule Rule.arguments) ++
      symbol .rightParen ||| symbol .dot ++ ident).Fits Reads part)
    {k k₁ : Nat} {ps : List (ParseTree Rule)} {e : Expr}
    (he : Call k (tokensAll ps) e k₁ (notesAll ps)) (htarget : e.isTarget = endsInTarget ps) :
    ∃ e' k', Call k (tokensAll (ps ++ parts.flatten)) e' k' (notesAll (ps ++ parts.flatten)) ∧
      e'.isTarget = endsInTarget (ps ++ parts.flatten) := by
  induction parts generalizing ps e k₁ with
  | nil => exact ⟨e, k₁, by simpa using he, by simpa using htarget⟩
  | cons part parts ih =>
    have hrest := fun part hpart => hparts part (List.mem_cons_of_mem _ hpart)
    obtain ⟨e', k', he', htarget'⟩ : ∃ e' k', Call k (tokensAll (ps ++ part)) e' k'
        (notesAll (ps ++ part)) ∧ e'.isTarget = endsInTarget (ps ++ part) := by
      rcases hparts part List.mem_cons_self with
        ⟨_, _, ⟨_, vs, ⟨opening, hopening, rfl⟩, hvs, rfl⟩, ⟨closing, hclosing, rfl⟩, rfl⟩ |
          ⟨_, _, ⟨dot, hdot, rfl⟩, ⟨name, hname, rfl⟩, rfl⟩
      · obtain ⟨es, k₂, hes⟩ : ∃ es k₂, Arguments k₁ (tokensAll vs) es k₂ (notesAll vs) := by
          rcases hvs with rfl | ⟨inner, hinner, rfl⟩
          · exact ⟨[], k₁, .none⟩
          · obtain ⟨es, k₂, hes⟩ := hinner k₁
            exact ⟨es, k₂, by simpa using Arguments.some hes⟩
        refine ⟨_, _, by simpa using Call.call he hopening hes hclosing, ?_⟩
        rw [← List.append_assoc, endsInTarget_append]
        rw [eq_symbol hclosing]
        rfl
      · refine ⟨_, _, by simpa using Call.get he hdot hname, ?_⟩
        rw [← List.append_assoc, endsInTarget_append]
        exact hname.symm
    simpa using ih hrest he' htarget'

lemma reads_call (h : ((rules .call).unbounded).Fits Reads parts) :
    Reads .call (.node .call parts) := by
  intro k
  obtain ⟨_, _, ⟨inner, hinner, rfl⟩, ⟨suffixes, hsuffixes, rfl⟩, rfl⟩ := h
  obtain ⟨e, k₁, he, htarget⟩ := hinner k
  have hcall : Call k (tokensAll [.node .primary inner]) e k₁
      (notesAll [.node .primary inner]) := by
    simpa using Call.primary he
  obtain ⟨e', k', he', htarget'⟩ := exists_call_reading hsuffixes hcall htarget
  exact ⟨e', k', by simpa using he', htarget'⟩

lemma reads_primary (h : ((rules .primary).unbounded).Fits Reads parts) :
    Reads .primary (.node .primary parts) := by
  intro k
  have hliteral : ∀ {t : Token} {value : Literal}, Literal.ofKind? t.kind = some value →
      ∃ e k', Primary k (node Rule.primary [token t]).tokens e k'
        (node Rule.primary [token t]).notes ∧
          e.isTarget = (node Rule.primary [token t]).isTarget := by
    intro t value ht
    refine ⟨_, _, Primary.literal ht, ?_⟩
    obtain ⟨kind, lexeme, line⟩ := t
    cases kind <;> first | rfl | cases ht
  rcases h with (((((((⟨t, ht, rfl⟩ | ⟨t, ht, rfl⟩) | ⟨t, ht, rfl⟩) | ⟨t, ht, rfl⟩) |
    ⟨t, ht, rfl⟩) | ⟨_, _, ⟨_, us, ⟨opening, hopening, rfl⟩, ⟨inner, hinner, rfl⟩, rfl⟩,
      ⟨closing, hclosing, rfl⟩, rfl⟩) |
    ⟨_, _, ⟨_, _, ⟨t, ht, rfl⟩, ⟨dot, hdot, rfl⟩, rfl⟩, ⟨method, hmethod, rfl⟩, rfl⟩) |
    ⟨t, ht, rfl⟩) | ⟨t, ht, rfl⟩
  · obtain ⟨kind, lexeme, line⟩ := t
    cases kind <;> first | exact hliteral rfl | cases ht
  · obtain ⟨kind, lexeme, line⟩ := t
    cases kind <;> first | exact hliteral rfl | cases ht
  · rw [eq_keyword ht]
    exact hliteral rfl
  · rw [eq_keyword ht]
    exact hliteral rfl
  · rw [eq_keyword ht]
    exact hliteral rfl
  · obtain ⟨e, k', he⟩ := hinner k
    exact ⟨_, _, by simpa using Primary.grouping hopening he hclosing, rfl⟩
  · exact ⟨_, _, Primary.super ht hdot hmethod, rfl⟩
  · refine ⟨_, _, Primary.this ht, ?_⟩
    rw [eq_keyword ht]
    rfl
  · exact ⟨_, _, Primary.var ht, ht.symm⟩

/-- Entries divided by commas, with the number of those before them. -/
lemma exists_entries_reading {parts : List (List (ParseTree Rule))}
    (hparts : ∀ part ∈ parts, (symbol .comma ++ rule Rule.expression).Fits Reads part)
    {first : List (ParseTree Rule)} (hfirst : Reads .expression (.node .expression first))
    (count k : Nat) :
    ∃ es k', Entries count k (tokensAll (.node .expression first :: parts.flatten)) es k'
      (entryNotes .tooManyArguments count (.node .expression first :: parts.flatten)) := by
  induction parts generalizing first count k with
  | nil =>
    obtain ⟨e, k', he⟩ := hfirst k
    have hlast := @Entries.last count _ _ _ _ _ he
    exact ⟨[e], k', by simpa [entryNotes] using hlast⟩
  | cons part parts ih =>
    obtain ⟨_, _, ⟨comma, hcomma, rfl⟩, ⟨inner, hinner, rfl⟩, rfl⟩ :=
      hparts part List.mem_cons_self
    obtain ⟨e, k₁, he⟩ := hfirst k
    obtain ⟨es, k', hes⟩ := ih (fun part hpart => hparts part (List.mem_cons_of_mem _ hpart))
      hinner (count + 1) k₁
    have hmore := Entries.more he hcomma hes
    exact ⟨e :: es, k', by simpa [entryNotes, hcomma] using hmore⟩

lemma not_comma_of_isIdentifier {t : Token} (ht : t.isIdentifier) :
    t.isSymbol .comma = false := by
  obtain ⟨kind, lexeme, line⟩ := t
  cases kind <;> first | rfl | cases ht

/-- Right-hand sides for one part that is no comma. -/
def IsEntry (meaning : Rule → ParseTree Rule → Prop) (e : Ebnf Rule) : Prop :=
  ∀ ps, e.Fits meaning ps → ∃ p, ps = [p] ∧ p.isComma = false

lemma isEntry_rule (meaning : Rule → ParseTree Rule → Prop) (name : Rule) :
    IsEntry meaning (rule name) := by
  rintro ps ⟨parts, -, rfl⟩
  exact ⟨_, rfl, rfl⟩

lemma isEntry_ident (meaning : Rule → ParseTree Rule → Prop) : IsEntry meaning ident := by
  rintro ps ⟨t, ht, rfl⟩
  exact ⟨_, rfl, not_comma_of_isIdentifier ht⟩

/-- A list with a comma in front of each entry but the first is divided by its commas. -/
lemma exists_divided {meaning : Rule → ParseTree Rule → Prop} {e : Ebnf Rule}
    (he : IsEntry meaning e) {first : List (ParseTree Rule)} (hfirst : e.Fits meaning first)
    {parts : List (List (ParseTree Rule))}
    (hparts : ∀ part ∈ parts, (symbol .comma ++ e).Fits meaning part) :
    ∃ es, Divided (first ++ parts.flatten) es ∧ es.length = parts.length + 1 := by
  induction parts generalizing first with
  | nil =>
    obtain ⟨p, rfl, hp⟩ := he first hfirst
    exact ⟨[p], .last hp, rfl⟩
  | cons part parts ih =>
    obtain ⟨p, rfl, hp⟩ := he first hfirst
    obtain ⟨_, next, ⟨comma, hcomma, rfl⟩, hnext, rfl⟩ := hparts part List.mem_cons_self
    obtain ⟨es, hes, hlen⟩ := ih hnext fun part hpart => hparts part (List.mem_cons_of_mem _ hpart)
    have hmore := Divided.more hp hcomma hes
    exact ⟨p :: es, by simpa using hmore, congrArg Nat.succ hlen⟩

lemma exists_names_reading {parts : List (List (ParseTree Rule))}
    (hparts : ∀ part ∈ parts, (symbol .comma ++ ident).Fits Reads part) {t : Token}
    (ht : t.isIdentifier) (count : Nat) :
    ∃ names, Names count (tokensAll (token t :: parts.flatten)) names
      (entryNotes .tooManyParameters count (token t :: parts.flatten)) := by
  induction parts generalizing t count with
  | nil =>
    have hlast := @Names.last count _ ht
    exact ⟨[t], by simpa [entryNotes, not_comma_of_isIdentifier ht] using hlast⟩
  | cons part parts ih =>
    obtain ⟨_, _, ⟨comma, hcomma, rfl⟩, ⟨t', ht', rfl⟩, rfl⟩ := hparts part List.mem_cons_self
    obtain ⟨names, hnames⟩ := ih (fun part hpart => hparts part (List.mem_cons_of_mem _ hpart))
      ht' (count + 1)
    have hmore := Names.more ht hcomma hnames
    exact ⟨t :: names, by simpa [entryNotes, not_comma_of_isIdentifier ht, hcomma] using hmore⟩

/-- Parts of one kind that are read one after the other. -/
lemma readable_many {α : Type} {name : Rule}
    {R : Nat → List Token → α → Nat → List Diagnostic → Prop}
    {Rs : Nat → List Token → List α → Nat → List Diagnostic → Prop} (hnil : ∀ k, Rs k [] [] k [])
    (hcons : ∀ k ts a k₁ ds us rest k' ds', R k ts a k₁ ds → Rs k₁ us rest k' ds' →
      Rs k (ts ++ us) (a :: rest) k' (ds ++ ds'))
    (hname : ∀ p, Reads name p → Readable R p.tokens p.notes)
    {parts : List (List (ParseTree Rule))}
    (hparts : ∀ part ∈ parts, (rule name).Fits Reads part) :
    Readable Rs (tokensAll parts.flatten) (notesAll parts.flatten) := by
  intro k
  induction parts generalizing k with
  | nil => exact ⟨[], k, hnil k⟩
  | cons part parts ih =>
    obtain ⟨inner, hinner, rfl⟩ := hparts part List.mem_cons_self
    obtain ⟨a, k₁, ha⟩ := hname _ hinner k
    obtain ⟨rest, k', hrest⟩ :=
      ih (fun part hpart => hparts part (List.mem_cons_of_mem _ hpart)) k₁
    have hall := hcons _ _ _ _ _ _ _ _ _ ha hrest
    exact ⟨a :: rest, k', by simpa using hall⟩

lemma readable_declarations {parts : List (List (ParseTree Rule))}
    (hparts : ∀ part ∈ parts, (rule Rule.declaration).Fits Reads part) :
    Readable Declarations (tokensAll parts.flatten) (notesAll parts.flatten) := by
  refine readable_many (R := fun k ts s k' ds => ∃ dangling, Declaration dangling k ts s k' ds)
    (fun _ => .nil) ?_ ?_ hparts
  · rintro k ts s k₁ ds us ss k' ds' ⟨dangling, hs⟩ hss
    exact .cons hs hss
  · intro p hp k
    obtain ⟨dangling, s, k', hs⟩ := hp k
    exact ⟨s, k', dangling, hs⟩

lemma readable_functions {parts : List (List (ParseTree Rule))}
    (hparts : ∀ part ∈ parts, (rule Rule.function).Fits Reads part) :
    Readable Functions (tokensAll parts.flatten) (notesAll parts.flatten) := by
  refine readable_many (fun _ => .nil) (fun _ _ _ _ _ _ _ _ _ => .cons) ?_ hparts
  exact fun _ hp => hp

lemma readable_optional (h : (opt (rule Rule.expression)).Fits Reads parts) :
    Readable Optional (tokensAll parts) (notesAll parts) := by
  intro k
  rcases h with rfl | ⟨inner, hinner, rfl⟩
  · exact ⟨none, k, .none⟩
  · obtain ⟨e, k', he⟩ := hinner k
    exact ⟨some e, k', by simpa using Optional.some he⟩

lemma reads_class (h : ((rules .classDecl).unbounded).Fits Reads parts) :
    Reads .classDecl (.node .classDecl parts) := by
  intro k
  obtain ⟨_, _, ⟨_, _, ⟨_, _, ⟨_, us, ⟨_, _, ⟨keyword, hkeyword, rfl⟩, ⟨name, hname, rfl⟩, rfl⟩,
    hus, rfl⟩, ⟨opening, hopening, rfl⟩, rfl⟩, ⟨methods, hmethods, rfl⟩, rfl⟩,
    ⟨closing, hclosing, rfl⟩, rfl⟩ := h
  obtain ⟨parent, k₁, hparent, hnotes⟩ :
      ∃ parent k₁, Superclass k (tokensAll us) parent k₁ ∧ notesAll us = [] := by
    rcases hus with rfl | ⟨_, _, ⟨sign, hsign, rfl⟩, ⟨parent, hparent, rfl⟩, rfl⟩
    · exact ⟨none, k, .none, rfl⟩
    · exact ⟨_, _, .some hsign hparent, rfl⟩
  obtain ⟨decls, k', hdecls⟩ := readable_functions hmethods k₁
  have hclass := Declaration.classDecl hkeyword hname hparent hopening hdecls hclosing
  exact ⟨_, _, by simpa [hnotes] using hclass⟩

lemma reads_function (h : ((rules .function).unbounded).Fits Reads parts) :
    Reads .function (.node .function parts) := by
  intro k
  obtain ⟨_, _, ⟨_, _, ⟨_, us, ⟨_, _, ⟨name, hname, rfl⟩, ⟨opening, hopening, rfl⟩, rfl⟩, hus, rfl⟩,
    ⟨closing, hclosing, rfl⟩, rfl⟩, ⟨block, ⟨brace, vs, closing', htokens, hbrace, hclosing',
      hbody⟩, rfl⟩, rfl⟩ := h
  obtain ⟨params, hparams⟩ : ∃ params, Parameters (tokensAll us) params (notesAll us) := by
    rcases hus with rfl | ⟨inner, ⟨names, hnames⟩, rfl⟩
    · exact ⟨[], .none⟩
    · exact ⟨names, by simpa using Parameters.some hnames⟩
  obtain ⟨body, k', hbody⟩ := hbody k
  have hfunction := Function.mk hname hopening hparams hclosing hbrace hbody hclosing'
  rw [tokens_node] at htokens
  exact ⟨_, _, by simpa [htokens] using hfunction⟩

lemma reads_variable (h : ((rules .varDecl).unbounded).Fits Reads parts) :
    Reads .varDecl (.node .varDecl parts) := by
  obtain ⟨_, _, ⟨_, us, ⟨_, _, ⟨keyword, hkeyword, rfl⟩, ⟨name, hname, rfl⟩, rfl⟩, hus, rfl⟩,
    ⟨semicolon, hsemicolon, rfl⟩, rfl⟩ := h
  refine ⟨keyword, _, rfl, hkeyword, fun k => ?_⟩
  rcases hus with rfl | ⟨_, _, ⟨sign, hsign, rfl⟩, ⟨inner, hinner, rfl⟩, rfl⟩
  · exact ⟨_, _, .plain hname hsemicolon⟩
  · obtain ⟨e, k', he⟩ := hinner k
    have hvariable := Variable.initialized hname hsign he hsemicolon
    exact ⟨_, _, by simpa using hvariable⟩

lemma reads_for (h : ((rules .forStmt).unbounded).Fits Reads parts) :
    Reads .forStmt (.node .forStmt parts) := by
  intro k
  obtain ⟨_, _, ⟨_, _, ⟨_, ps₃, ⟨_, _, ⟨_, ps₂, ⟨_, ps₁, ⟨_, _, ⟨keyword, hkeyword, rfl⟩,
    ⟨opening, hopening, rfl⟩, rfl⟩, hfirst, rfl⟩, hcondition, rfl⟩, ⟨semicolon, hsemicolon, rfl⟩,
    rfl⟩, hincrement, rfl⟩, ⟨closing, hclosing, rfl⟩, rfl⟩, ⟨inner, hinner, rfl⟩, rfl⟩ := h
  obtain ⟨first, k₁, hfirst⟩ :
      ∃ first k₁, Initializer k (tokensAll ps₁) first k₁ (notesAll ps₁) := by
    rcases hfirst with (⟨inner, ⟨var, vs, htokens, hvar, hvs⟩, rfl⟩ |
      ⟨inner, ⟨vs, semi, htokens, hsemi, hvs⟩, rfl⟩) | ⟨semi, hsemi, rfl⟩
    · obtain ⟨s, k₁, hs⟩ := hvs k
      rw [tokens_node] at htokens
      exact ⟨_, _, by simpa [htokens] using Initializer.varDecl hvar hs⟩
    · obtain ⟨e, k₁, he⟩ := hvs k
      rw [tokens_node] at htokens
      exact ⟨_, _, by simpa [htokens] using Initializer.expression he hsemi⟩
    · exact ⟨_, _, .none hsemi⟩
  obtain ⟨condition, k₂, hcondition⟩ := readable_optional hcondition k₁
  obtain ⟨increment, k₃, hincrement⟩ := readable_optional hincrement k₂
  obtain ⟨d, body, k₄, hbody⟩ := hinner k₃
  have hcount := Statement.count hkeyword hopening hfirst hcondition hsemicolon hincrement hclosing
    hbody
  exact ⟨_, _, _, by simpa using hcount⟩

/-- A `sonst` behind a statement that could still take one itself goes there. -/
lemma reads_if (h : ((rules .ifStmt).unbounded).Fits Reads parts) :
    Reads .ifStmt (.node .ifStmt parts) := by
  intro k
  obtain ⟨_, _, ⟨_, _, ⟨_, _, ⟨_, _, ⟨_, _, ⟨keyword, hkeyword, rfl⟩, ⟨opening, hopening, rfl⟩,
    rfl⟩, ⟨condition, hcondition, rfl⟩, rfl⟩, ⟨closing, hclosing, rfl⟩, rfl⟩,
    ⟨first, hfirst, rfl⟩, rfl⟩, hrest, rfl⟩ := h
  obtain ⟨e, k₁, he⟩ := hcondition k
  obtain ⟨d, thenBranch, k₂, hthen⟩ := hfirst k₁
  rcases hrest with rfl | ⟨_, _, ⟨other, hother, rfl⟩, ⟨second, hsecond, rfl⟩, rfl⟩
  · have hif := Statement.ifThen hkeyword hopening he hclosing hthen
    exact ⟨_, _, _, by simpa using hif⟩
  · cases d with
    | false =>
      obtain ⟨d', elseBranch, k', helse⟩ := hsecond k₂
      have hif := Statement.ifElse hkeyword hopening he hclosing hthen hother helse
      exact ⟨_, _, _, by simpa using hif⟩
    | true =>
      obtain ⟨d, r, k', hr⟩ := hthen.attach rfl hother hsecond
      have hif := Statement.ifThen hkeyword hopening he hclosing hr
      exact ⟨_, _, _, by simpa using hif⟩

lemma reads_statement (h : ((rules .statement).unbounded).Fits Reads parts) :
    Reads .statement (.node .statement parts) := by
  intro k
  rcases h with (((((⟨inner, ⟨us, semicolon, htokens, hsemicolon, hus⟩, rfl⟩ | ⟨inner, h, rfl⟩) |
    ⟨inner, h, rfl⟩) | ⟨inner, h, rfl⟩) | ⟨inner, h, rfl⟩) | ⟨inner, h, rfl⟩) |
    ⟨inner, ⟨opening, us, closing, htokens, hopening, hclosing, hus⟩, rfl⟩
  · obtain ⟨e, k', he⟩ := hus k
    rw [tokens_node] at htokens
    exact ⟨_, _, _, by simpa [htokens] using Statement.expression he hsemicolon⟩
  · simpa using h k
  · simpa using h k
  · obtain ⟨s, k', hs⟩ := h k
    exact ⟨_, s, k', by simpa using hs⟩
  · obtain ⟨s, k', hs⟩ := h k
    exact ⟨_, s, k', by simpa using hs⟩
  · simpa using h k
  · obtain ⟨body, k', hbody⟩ := hus k
    rw [tokens_node] at htokens
    exact ⟨_, _, _, by simpa [htokens] using Statement.block hopening hbody hclosing⟩

/-- Parse trees put together by a rule are read as the rule says, with the notes that are due.
Assignments are left open. -/
theorem reads_of_fits {name : Rule} (hname : name ≠ .assignment)
    (h : ((rules name).unbounded).Fits Reads parts) : Reads name (.node name parts) := by
  cases name with
  | program =>
    obtain ⟨_, _, ⟨inner, hinner, rfl⟩, ⟨mark, hmark, rfl⟩, rfl⟩ := h
    refine ⟨tokensAll inner.flatten, mark, by simp, by simpa using hmark, fun k => ?_⟩
    simpa using readable_declarations hinner k
  | declaration =>
    intro k
    rcases h with ((⟨inner, h, rfl⟩ | ⟨inner, h, rfl⟩) |
      ⟨inner, ⟨keyword, us, htokens, hkeyword, hus⟩, rfl⟩) | ⟨inner, h, rfl⟩
    · obtain ⟨s, k', hs⟩ := h k
      exact ⟨_, s, k', by simpa using hs⟩
    · obtain ⟨s, k', hs⟩ := h k
      exact ⟨_, s, k', by simpa using hs⟩
    · obtain ⟨s, k', hs⟩ := hus k
      rw [tokens_node] at htokens
      exact ⟨_, s, k', by simpa [htokens] using Declaration.varDecl hkeyword hs⟩
    · obtain ⟨d, s, k', hs⟩ := h k
      exact ⟨d, s, k', by simpa using Declaration.statement hs⟩
  | classDecl => exact reads_class h
  | funDecl =>
    intro k
    obtain ⟨_, _, ⟨keyword, hkeyword, rfl⟩, ⟨inner, hinner, rfl⟩, rfl⟩ := h
    obtain ⟨decl, k', hdecl⟩ := hinner k
    exact ⟨_, _, by simpa using Declaration.funDecl hkeyword hdecl⟩
  | function => exact reads_function h
  | parameters =>
    obtain ⟨_, _, ⟨t, ht, rfl⟩, ⟨inner, hinner, rfl⟩, rfl⟩ := h
    exact exists_names_reading hinner ht 0
  | varDecl => exact reads_variable h
  | statement => exact reads_statement h
  | exprStmt =>
    obtain ⟨_, _, ⟨inner, hinner, rfl⟩, ⟨semicolon, hsemicolon, rfl⟩, rfl⟩ := h
    refine ⟨tokensAll inner, semicolon, by simp, hsemicolon, fun k => ?_⟩
    simpa using hinner k
  | forStmt => exact reads_for h
  | ifStmt => exact reads_if h
  | printStmt =>
    intro k
    obtain ⟨_, _, ⟨_, _, ⟨keyword, hkeyword, rfl⟩, ⟨inner, hinner, rfl⟩, rfl⟩,
      ⟨semicolon, hsemicolon, rfl⟩, rfl⟩ := h
    obtain ⟨e, k', he⟩ := hinner k
    exact ⟨_, _, by simpa using Statement.print hkeyword he hsemicolon⟩
  | returnStmt =>
    intro k
    obtain ⟨_, _, ⟨_, _, ⟨keyword, hkeyword, rfl⟩, hus, rfl⟩, ⟨semicolon, hsemicolon, rfl⟩,
      rfl⟩ := h
    obtain ⟨value, k', hvalue⟩ := readable_optional hus k
    exact ⟨_, _, by simpa using Statement.ret hkeyword hvalue hsemicolon⟩
  | whileStmt =>
    intro k
    obtain ⟨_, _, ⟨_, _, ⟨_, _, ⟨_, _, ⟨keyword, hkeyword, rfl⟩, ⟨opening, hopening, rfl⟩, rfl⟩,
      ⟨condition, hcondition, rfl⟩, rfl⟩, ⟨closing, hclosing, rfl⟩, rfl⟩, ⟨inner, hinner, rfl⟩,
      rfl⟩ := h
    obtain ⟨e, k₁, he⟩ := hcondition k
    obtain ⟨d, body, k', hbody⟩ := hinner k₁
    exact ⟨_, _, _, by simpa using Statement.loop hkeyword hopening he hclosing hbody⟩
  | block =>
    obtain ⟨_, _, ⟨_, _, ⟨opening, hopening, rfl⟩, ⟨inner, hinner, rfl⟩, rfl⟩,
      ⟨closing, hclosing, rfl⟩, rfl⟩ := h
    refine ⟨opening, tokensAll inner.flatten, closing, by simp, hopening, hclosing, fun k => ?_⟩
    simpa using readable_declarations hinner k
  | expression =>
    intro k
    obtain ⟨inner, hinner, rfl⟩ := h
    simpa using hinner k
  | assignment => exact absurd rfl hname
  | logicOr => exact reads_level .disjunction h fun _ h => h
  | logicAnd => exact reads_level .conjunction h fun _ h => h
  | equality => exact reads_level .equality h fun _ h => h
  | comparison => exact reads_level .comparison h fun _ h => h
  | term => exact reads_level .term h fun _ h => h
  | factor =>
    refine reads_level .factor h fun q hq k => ?_
    obtain ⟨e, k', he, htarget⟩ := hq k
    exact ⟨e, k', .unary he, htarget⟩
  | unary => exact reads_unary h
  | call => exact reads_call h
  | arguments =>
    intro k
    obtain ⟨_, _, ⟨first, hfirst, rfl⟩, ⟨inner, hinner, rfl⟩, rfl⟩ := h
    exact exists_entries_reading hinner hfirst 0 k
  | primary => exact reads_primary h

@[simp] lemma noMark_symbol (inner : Rule → Prop) (s : Symbol) : (symbol s).NoMark inner := by
  intro t ht heof
  simp [Token.isSymbol, heof] at ht

@[simp] lemma noMark_word (inner : Rule → Prop) (k : Keyword) : (word k).NoMark inner := by
  intro t ht heof
  simp [Token.isKeyword, heof] at ht

@[simp] lemma noMark_ident (inner : Rule → Prop) : ident.NoMark inner := by
  intro t ht heof
  simp [Token.isIdentifier, heof] at ht

/-- An end mark stands at the end of a program only. -/
lemma noMark_rules {name : Rule} (hname : name ≠ .program) :
    (rules name).NoMark (· ≠ .program) := by
  have hnumber : number.NoMark (· ≠ .program) := fun t ht heof => by simp [heof] at ht
  have htext : text.NoMark (· ≠ .program) := fun t ht heof => by simp [heof] at ht
  cases name with
  | program => exact absurd rfl hname
  | _ => simp [rules, entries, NoMark, hnumber, htext]

/-- The tokens in front of the end mark of a program, whatever its declarations are. -/
lemma exists_mark {rules' : Rule → Ebnf Rule}
    (hrules : ∀ name, name ≠ .program → (rules' name).NoMark (· ≠ .program))
    (h : Builds rules' (rules .program) parts) :
    ∃ ts mark, tokensAll parts = ts ++ [mark] ∧ mark.kind = .eof ∧ ∀ t ∈ ts, t.kind ≠ .eof := by
  cases h with
  | @seq _ _ ps qs hdeclarations hmark =>
    cases hmark with
    | @terminal _ mark hmark =>
      refine ⟨tokensAll ps, mark, by simp, by simpa using hmark, ?_⟩
      exact hdeclarations.kind_ne hrules (by simp [NoMark])

end Grammar

/-- What is read with notes is parsed with the same diagnostics. -/
lemma parse_of_declarations {ts tokens : List Token} {mark : Token} {k k' : ExprId}
    {ss : List Stmt} {ds : List Diagnostic} (hts : ∀ t ∈ ts, t.kind ≠ .eof)
    (hmark : mark.kind = .eof) (htokens : tokens = ts ∨ tokens = ts ++ [mark])
    (h : Reading.Declarations k ts ss k' ds) :
    parse tokens k = ⟨if ds.isEmpty then .ok ss else .error ds, k'⟩ := by
  obtain ⟨line, hstart⟩ : ∃ line, Parser.State.start tokens k = ⟨ts, line, k, []⟩ := by
    rcases htokens with rfl | rfl
    · exact ⟨_, Parser.start_of_kind_ne hts k⟩
    · exact ⟨_, Parser.start_append hts hmark [] k⟩
  have htakes := h.takes ts.length ts.length [] (by simp) (Nat.le_refl _) Reading.closes_end line []
  simp only [List.append_nil, List.nil_append] at htakes
  exact parse_eq_of_items hstart (Nat.le_refl _) (Nat.le_refl _) htakes

/-- A program is parsed with the notes of each of its parse trees that is read. -/
lemma parse_of_reads {p : ParseTree Grammar.Rule} (hreads : Grammar.Reads .program p)
    {ts tokens : List Token} {mark : Token} (hp : p.tokens = ts ++ [mark])
    (hts : ∀ t ∈ ts, t.kind ≠ .eof) (htokens : tokens = ts ∨ tokens = ts ++ [mark]) (k : ExprId) :
    ∃ program k',
      parse tokens k = ⟨if p.notes.isEmpty then .ok program else .error p.notes, k'⟩ := by
  obtain ⟨us, mark', hus, hmark, hread⟩ := hreads
  obtain ⟨rfl, hmark'⟩ := List.append_inj' (hp.symm.trans hus) rfl
  obtain rfl : mark = mark' := by simpa using hmark'
  obtain ⟨program, k', hprogram⟩ := hread k
  exact ⟨program, k', parse_of_declarations hts hmark htokens hprogram⟩

end GermanLox
