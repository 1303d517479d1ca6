import GermanLox.Proofs.Equality
import GermanLox.Proofs.Grammar.Derivation
import GermanLox.Proofs.Grammar.Reading

/-!
# The parser is exact

Whatever the rules derive has a tree. The rules leave open which `wenn` a `sonst` belongs to: a
derivation that gives it to an outer one has a tree all the same, with the `sonst` at the innermost
`wenn` that is open. So the parser accepts what the rules derive and nothing else, and what it
returns is the one tree that the grammar prescribes.
-/

namespace GermanLox
namespace Tree

/-- A `sonst` behind a statement with an open `wenn` goes to the innermost one. -/
lemma Statement.attach {dangling ts s} (h : Statement dangling ts s) (hopen : dangling = true)
    {other : Token} (hother : other.isKeyword .sonst) {dangling' vs s'}
    (helse : Statement dangling' vs s') : ∃ d r, Statement d (ts ++ other :: vs) r := by
  match h with
  | .expression _ _ => cases hopen
  | .print _ _ _ => cases hopen
  | .ret _ _ _ => cases hopen
  | .block _ _ _ => cases hopen
  | .loop hkeyword hopening he hclosing hbody =>
    obtain ⟨d, r, hr⟩ := hbody.attach hopen hother helse
    have hloop := Statement.loop hkeyword hopening he hclosing hr
    exact ⟨_, _, by simpa using hloop⟩
  | .count hkeyword hopening hfirst hcondition hsemicolon hincrement hclosing hbody =>
    obtain ⟨d, r, hr⟩ := hbody.attach hopen hother helse
    have hcount := Statement.count hkeyword hopening hfirst hcondition hsemicolon hincrement
      hclosing hr
    exact ⟨_, _, by simpa using hcount⟩
  | @Statement.ifThen inner _ _ _ _ _ _ _ hkeyword hopening he hclosing hthen =>
    by_cases hinner : inner = true
    · obtain ⟨d, r, hr⟩ := hthen.attach hinner hother helse
      have hif := Statement.ifThen hkeyword hopening he hclosing hr
      exact ⟨_, _, by simpa using hif⟩
    · obtain rfl : inner = false := by simpa using hinner
      exact ⟨_, _, .ifElse hkeyword hopening he hclosing hthen hother helse⟩
  | .ifElse hkeyword hopening he hclosing hthen hother' helse' =>
    obtain ⟨d, r, hr⟩ := helse'.attach hopen hother helse
    have hif := Statement.ifElse hkeyword hopening he hclosing hthen hother' hr
    exact ⟨_, _, by simpa using hif⟩

end Tree

namespace Grammar

open Ebnf GermanLox.Tree

/-- What a rule stands for: the lists of tokens with a tree of its kind. -/
def HasTree : Rule → List Token → Prop
  | .program, ts => ∃ us mark ss, ts = us ++ [mark] ∧ mark.kind = .eof ∧ Declarations us ss
  | .declaration, ts => ∃ d s, Declaration d ts s
  | .classDecl, ts => ∃ s, Declaration false ts s
  | .funDecl, ts => ∃ s, Declaration false ts s
  | .function, ts => ∃ decl, Function ts decl
  | .parameters, ts => ∃ names, Names ts names ∧ names.length ≤ Parser.maxEntries
  | .varDecl, ts => ∃ keyword us s, ts = keyword :: us ∧ keyword.isKeyword .var ∧ Variable us s
  | .statement, ts => ∃ d s, Statement d ts s
  | .exprStmt, ts => ∃ us semicolon e, ts = us ++ [semicolon] ∧ semicolon.isSymbol .semicolon ∧
    Expression us e
  | .forStmt, ts => ∃ d s, Statement d ts s
  | .ifStmt, ts => ∃ d s, Statement d ts s
  | .printStmt, ts => ∃ d s, Statement d ts s
  | .returnStmt, ts => ∃ d s, Statement d ts s
  | .whileStmt, ts => ∃ d s, Statement d ts s
  | .block, ts => ∃ opening us closing body, ts = opening :: us ++ [closing] ∧
    opening.isSymbol .leftBrace ∧ Declarations us body ∧ closing.isSymbol .rightBrace
  | .expression, ts => ∃ e, Expression ts e
  | .assignment, ts => ∃ e, Expression ts e
  | .logicOr, ts => ∃ e, Operation Precedence.tower ts e
  | .logicAnd, ts => ∃ e, Operation [.conjunction, .equality, .comparison, .term, .factor] ts e
  | .equality, ts => ∃ e, Operation [.equality, .comparison, .term, .factor] ts e
  | .comparison, ts => ∃ e, Operation [.comparison, .term, .factor] ts e
  | .term, ts => ∃ e, Operation [.term, .factor] ts e
  | .factor, ts => ∃ e, Operation [.factor] ts e
  | .unary, ts => ∃ e, Unary ts e
  | .call, ts => ∃ e, Call ts e
  | .arguments, ts => ∃ es, Entries ts es ∧ es.length ≤ Parser.maxEntries
  | .primary, ts => ∃ e, Primary ts e

lemma sign_of_yields {p : Precedence} {ts : List Token}
    (h : (operator p).Yields HasTree ts) : ∃ t node, ts = [t] ∧ Sign p t node := by
  cases p with
  | disjunction =>
    obtain ⟨t, ht, rfl⟩ := h
    exact ⟨t, _, rfl, .or ht⟩
  | conjunction =>
    obtain ⟨t, ht, rfl⟩ := h
    exact ⟨t, _, rfl, .and ht⟩
  | equality =>
    rcases h with ⟨t, ht, rfl⟩ | ⟨t, ht, rfl⟩
    · exact ⟨t, _, rfl, .notEqual ht⟩
    · exact ⟨t, _, rfl, .equal ht⟩
  | comparison =>
    rcases h with ((⟨t, ht, rfl⟩ | ⟨t, ht, rfl⟩) | ⟨t, ht, rfl⟩) | ⟨t, ht, rfl⟩
    · exact ⟨t, _, rfl, .greater ht⟩
    · exact ⟨t, _, rfl, .greaterEqual ht⟩
    · exact ⟨t, _, rfl, .less ht⟩
    · exact ⟨t, _, rfl, .lessEqual ht⟩
  | term =>
    rcases h with ⟨t, ht, rfl⟩ | ⟨t, ht, rfl⟩
    · exact ⟨t, _, rfl, .subtract ht⟩
    · exact ⟨t, _, rfl, .add ht⟩
  | factor =>
    rcases h with ⟨t, ht, rfl⟩ | ⟨t, ht, rfl⟩
    · exact ⟨t, _, rfl, .divide ht⟩
    · exact ⟨t, _, rfl, .multiply ht⟩

/-- Operands with signs of one level between them, grouped to the left. -/
lemma exists_operation {p : Precedence} {ps : List Precedence} {M : List Token → Prop}
    (hM : ∀ ts, M ts → ∃ e, Operation ps ts e) {us : List Token} {parts : List (List Token)}
    {left : Expr} (hleft : Operation (p :: ps) us left)
    (hparts : ∀ part ∈ parts, ∃ vs ws, (operator p).Yields HasTree vs ∧ M ws ∧ part = vs ++ ws) :
    ∃ e, Operation (p :: ps) (us ++ parts.flatten) e := by
  induction parts generalizing us left with
  | nil => exact ⟨left, by simpa using hleft⟩
  | cons part parts ih =>
    obtain ⟨vs, ws, hvs, hws, rfl⟩ := hparts part List.mem_cons_self
    obtain ⟨t, node, rfl, hsign⟩ := sign_of_yields hvs
    obtain ⟨right, hright⟩ := hM ws hws
    have hnode := @Operation.sign 0 _ _ _ _ _ _ _ _ hleft hsign hright
    obtain ⟨e, he⟩ := ih hnode (fun part hpart => hparts part (List.mem_cons_of_mem _ hpart))
    exact ⟨e, by simpa using he⟩

/-- One level of operators over the tighter ones. -/
lemma exists_level (p : Precedence) (ps : List Precedence) (name : Rule)
    (hname : ∀ ts, HasTree name ts → ∃ e, Operation ps ts e) {ts : List Token}
    (h : (rule name ++ many (operator p ++ rule name)).Yields HasTree ts) :
    ∃ e, Operation (p :: ps) ts e := by
  obtain ⟨us, vs, hus, ⟨parts, hparts, rfl⟩, rfl⟩ := h
  obtain ⟨left, hleft⟩ := hname us hus
  exact exists_operation hname (.operand hleft) hparts

/-- Entries divided by commas. -/
lemma exists_entries {limit : Nat} {us : List Token} {parts : List (List Token)}
    (hus : ∃ e, Expression us e) (hlen : parts.length ≤ limit)
    (hparts : ∀ part ∈ parts, (symbol .comma ++ rule Rule.expression).Yields HasTree part) :
    ∃ es, Entries (us ++ parts.flatten) es ∧ es.length ≤ limit + 1 := by
  obtain ⟨e, he⟩ := hus
  induction parts generalizing us e limit with
  | nil => exact ⟨[e], by simpa using Entries.last he, by simp⟩
  | cons part parts ih =>
    obtain ⟨_, vs, ⟨comma, hcomma, rfl⟩, ⟨e', he'⟩, rfl⟩ := hparts part List.mem_cons_self
    obtain ⟨limit, rfl⟩ : ∃ l, limit = l + 1 := ⟨limit - 1, by simp at hlen; omega⟩
    obtain ⟨es, hes, hlen'⟩ := ih (by simpa using hlen)
      (fun part hpart => hparts part (List.mem_cons_of_mem _ hpart)) e' he'
    exact ⟨e :: es, by simpa using Entries.more he hcomma hes, by simpa using hlen'⟩

lemma exists_names {limit : Nat} {t : Token} {parts : List (List Token)} (ht : t.isIdentifier)
    (hlen : parts.length ≤ limit)
    (hparts : ∀ part ∈ parts, (symbol .comma ++ ident).Yields HasTree part) :
    ∃ names, Names (t :: parts.flatten) names ∧ names.length ≤ limit + 1 := by
  induction parts generalizing t limit with
  | nil => exact ⟨[t], .last ht, by simp⟩
  | cons part parts ih =>
    obtain ⟨_, _, ⟨comma, hcomma, rfl⟩, ⟨t', ht', rfl⟩, rfl⟩ := hparts part List.mem_cons_self
    obtain ⟨limit, rfl⟩ : ∃ l, limit = l + 1 := ⟨limit - 1, by simp at hlen; omega⟩
    obtain ⟨names, hnames, hlen'⟩ := ih ht' (by simpa using hlen)
      (fun part hpart => hparts part (List.mem_cons_of_mem _ hpart))
    exact ⟨t :: names, by simpa using Names.more ht hcomma hnames, by simpa using hlen'⟩

lemma exists_declarations {parts : List (List Token)}
    (hparts : ∀ part ∈ parts, ∃ d s, Declaration d part s) :
    ∃ ss, Declarations parts.flatten ss := by
  induction parts with
  | nil => exact ⟨[], .nil⟩
  | cons part parts ih =>
    obtain ⟨d, s, hs⟩ := hparts part List.mem_cons_self
    obtain ⟨ss, hss⟩ := ih (fun part hpart => hparts part (List.mem_cons_of_mem _ hpart))
    exact ⟨s :: ss, .cons hs hss⟩

lemma exists_functions {parts : List (List Token)}
    (hparts : ∀ part ∈ parts, ∃ decl, Function part decl) :
    ∃ decls, Functions parts.flatten decls := by
  induction parts with
  | nil => exact ⟨[], .nil⟩
  | cons part parts ih =>
    obtain ⟨decl, hdecl⟩ := hparts part List.mem_cons_self
    obtain ⟨decls, hdecls⟩ := ih (fun part hpart => hparts part (List.mem_cons_of_mem _ hpart))
    exact ⟨decl :: decls, .cons hdecl hdecls⟩

lemma exists_optional {ts : List Token} (h : (opt (rule Rule.expression)).Yields HasTree ts) :
    ∃ e, Optional ts e := by
  rcases h with rfl | ⟨e, he⟩
  · exact ⟨none, .none⟩
  · exact ⟨some e, .some he⟩

/-- Suffixes behind a call, grouped to the left. -/
lemma exists_call {us : List Token} {parts : List (List Token)} (hus : ∃ e, Call us e)
    (hparts : ∀ part ∈ parts,
      (symbol .leftParen ++ opt (rule Rule.arguments) ++ symbol .rightParen |||
        symbol .dot ++ ident).Yields HasTree part) : ∃ e, Call (us ++ parts.flatten) e := by
  induction parts generalizing us with
  | nil => simpa using hus
  | cons part parts ih =>
    obtain ⟨e, he⟩ := hus
    have hrest : ∃ e', Call (us ++ part) e' := by
      rcases hparts part List.mem_cons_self with
        ⟨_, _, ⟨_, vs, ⟨opening, hopening, rfl⟩, hvs, rfl⟩, ⟨closing, hclosing, rfl⟩, rfl⟩ |
          ⟨_, _, ⟨dot, hdot, rfl⟩, ⟨name, hname, rfl⟩, rfl⟩
      · have hargs : ∃ es, Arguments vs es := by
          rcases hvs with rfl | ⟨es, hes, hlen⟩
          · exact ⟨[], .none⟩
          · exact ⟨es, .some hes hlen⟩
        obtain ⟨es, hes⟩ := hargs
        exact ⟨_, by simpa using @Call.call 0 _ _ _ _ _ _ he hopening hes hclosing⟩
      · exact ⟨_, @Call.get 0 _ _ _ _ he hdot hname⟩
    have hall := ih hrest (fun part hpart => hparts part (List.mem_cons_of_mem _ hpart))
    simpa using hall

lemma exists_primary {ts : List Token} (h : (rules .primary).Yields HasTree ts) :
    ∃ e, Primary ts e := by
  have hliteral : ∀ {t : Token} {value : Literal}, Literal.ofKind? t.kind = some value →
      ∃ e, Primary [t] e := fun ht => ⟨_, @Primary.literal 0 _ _ ht⟩
  rcases h with (((((((⟨t, ht, rfl⟩ | ⟨t, ht, rfl⟩) | ⟨t, ht, rfl⟩) | ⟨t, ht, rfl⟩) |
    ⟨t, ht, rfl⟩) | ⟨_, _, ⟨_, us, ⟨opening, hopening, rfl⟩, ⟨e, he⟩, rfl⟩,
      ⟨closing, hclosing, rfl⟩, rfl⟩) |
    ⟨_, _, ⟨_, _, ⟨t, ht, rfl⟩, ⟨dot, hdot, rfl⟩, rfl⟩, ⟨method, hmethod, rfl⟩, rfl⟩) |
    ⟨t, ht, rfl⟩) | ⟨t, ht, rfl⟩
  · obtain ⟨kind, lexeme, line⟩ := t
    cases kind <;> first | exact hliteral rfl | cases ht
  · obtain ⟨kind, lexeme, line⟩ := t
    cases kind <;> first | exact hliteral rfl | cases ht
  · rw [Reading.eq_keyword ht]
    exact hliteral rfl
  · rw [Reading.eq_keyword ht]
    exact hliteral rfl
  · rw [Reading.eq_keyword ht]
    exact hliteral rfl
  · exact ⟨_, @Primary.grouping 0 _ _ _ _ hopening he hclosing⟩
  · exact ⟨_, @Primary.super 0 _ _ _ ht hdot hmethod⟩
  · exact ⟨_, @Primary.this 0 _ ht⟩
  · exact ⟨_, @Primary.var 0 _ ht⟩

lemma exists_assignment {ts : List Token} (h : (rules .assignment).Yields HasTree ts) :
    ∃ e, Expression ts e := by
  rcases h with ⟨_, us, ⟨_, _, ⟨vs, _, hvs, ⟨name, hname, rfl⟩, rfl⟩, ⟨sign, hsign, rfl⟩, rfl⟩,
    ⟨value, hvalue⟩, rfl⟩ | ⟨e, he⟩
  · rcases hvs with rfl | ⟨ws, _, ⟨object, hobject⟩, ⟨dot, hdot, rfl⟩, rfl⟩
    · exact ⟨_, @Expression.assign 0 _ _ _ _ hname hsign hvalue⟩
    · exact ⟨_, by simpa using @Expression.set 0 _ _ _ _ _ _ _ hobject hdot hname hsign hvalue⟩
  · exact ⟨e, .operation he⟩

lemma exists_unary {ts : List Token} (h : (rules .unary).Yields HasTree ts) :
    ∃ e, Unary ts e := by
  rcases h with ⟨_, us, ht, ⟨e, he⟩, rfl⟩ | ⟨e, he⟩
  · rcases ht with ⟨t, ht, rfl⟩ | ⟨t, ht, rfl⟩
    · exact ⟨_, @Unary.not 0 _ _ _ ht he⟩
    · exact ⟨_, @Unary.negate 0 _ _ _ ht he⟩
  · exact ⟨e, .call he⟩

lemma exists_class {ts : List Token} (h : (rules .classDecl).Yields HasTree ts) :
    ∃ s, Declaration false ts s := by
  obtain ⟨_, _, ⟨_, _, ⟨_, _, ⟨_, us, ⟨_, _, ⟨keyword, hkeyword, rfl⟩, ⟨name, hname, rfl⟩, rfl⟩,
    hus, rfl⟩, ⟨opening, hopening, rfl⟩, rfl⟩, ⟨parts, hparts, rfl⟩, rfl⟩,
    ⟨closing, hclosing, rfl⟩, rfl⟩ := h
  have hparent : ∃ parent, Superclass us parent := by
    rcases hus with rfl | ⟨_, _, ⟨sign, hsign, rfl⟩, ⟨parent, hparent, rfl⟩, rfl⟩
    · exact ⟨none, .none⟩
    · exact ⟨_, @Superclass.some 0 _ _ hsign hparent⟩
  obtain ⟨parent, hparent⟩ := hparent
  obtain ⟨methods, hmethods⟩ := exists_functions hparts
  exact ⟨_, by simpa using Declaration.classDecl hkeyword hname hparent hopening hmethods hclosing⟩

lemma exists_function {ts : List Token} (h : (rules .function).Yields HasTree ts) :
    ∃ decl, Function ts decl := by
  obtain ⟨_, _, ⟨_, _, ⟨_, us, ⟨_, _, ⟨name, hname, rfl⟩, ⟨opening, hopening, rfl⟩, rfl⟩, hus, rfl⟩,
    ⟨closing, hclosing, rfl⟩, rfl⟩, ⟨brace, vs, closing', body, rfl, hbrace, hbody, hclosing'⟩,
    rfl⟩ := h
  have hparams : ∃ params, Parameters us params := by
    rcases hus with rfl | ⟨names, hnames, hlen⟩
    · exact ⟨[], .none⟩
    · exact ⟨names, .some hnames hlen⟩
  obtain ⟨params, hparams⟩ := hparams
  exact ⟨_, by simpa using Function.mk hname hopening hparams hclosing hbrace hbody hclosing'⟩

lemma exists_variable {ts : List Token} (h : (rules .varDecl).Yields HasTree ts) :
    HasTree .varDecl ts := by
  obtain ⟨_, _, ⟨_, us, ⟨_, _, ⟨keyword, hkeyword, rfl⟩, ⟨name, hname, rfl⟩, rfl⟩, hus, rfl⟩,
    ⟨semicolon, hsemicolon, rfl⟩, rfl⟩ := h
  rcases hus with rfl | ⟨_, vs, ⟨sign, hsign, rfl⟩, ⟨e, he⟩, rfl⟩
  · exact ⟨keyword, _, _, rfl, hkeyword, .plain hname hsemicolon⟩
  · exact ⟨keyword, _, _, rfl, hkeyword, .initialized hname hsign he hsemicolon⟩

lemma exists_for {ts : List Token} (h : (rules .forStmt).Yields HasTree ts) :
    ∃ d s, Statement d ts s := by
  obtain ⟨_, us, ⟨_, _, ⟨_, ts₃, ⟨_, _, ⟨_, ts₂, ⟨_, ts₁, ⟨_, _, ⟨keyword, hkeyword, rfl⟩,
    ⟨opening, hopening, rfl⟩, rfl⟩, hfirst, rfl⟩, hcondition, rfl⟩, ⟨semicolon, hsemicolon, rfl⟩,
    rfl⟩, hincrement, rfl⟩, ⟨closing, hclosing, rfl⟩, rfl⟩, ⟨d, body, hbody⟩, rfl⟩ := h
  have hfirst' : ∃ first, Initializer ts₁ first := by
    rcases hfirst with (⟨keyword, vs, s, rfl, hvar, hs⟩ | ⟨vs, semi, e, rfl, hsemi, he⟩) |
      ⟨semi, hsemi, rfl⟩
    · exact ⟨_, .varDecl hvar hs⟩
    · exact ⟨_, .expression he hsemi⟩
    · exact ⟨_, .none hsemi⟩
  have hcondition' : ∃ e, Condition ts₂ e := by
    rcases hcondition with rfl | ⟨e, he⟩
    · exact ⟨_, @Condition.always 0⟩
    · exact ⟨e, .expression he⟩
  obtain ⟨first, hfirst⟩ := hfirst'
  obtain ⟨condition, hcondition⟩ := hcondition'
  obtain ⟨increment, hincrement⟩ := exists_optional hincrement
  have hcount := Statement.count hkeyword hopening hfirst hcondition hsemicolon hincrement hclosing
    hbody
  exact ⟨_, _, by simpa using hcount⟩

/-- A `sonst` behind a statement that could still take one itself goes there. -/
lemma exists_if {ts : List Token} (h : (rules .ifStmt).Yields HasTree ts) :
    ∃ d s, Statement d ts s := by
  obtain ⟨_, ws, ⟨_, us, ⟨_, _, ⟨_, vs, ⟨_, _, ⟨keyword, hkeyword, rfl⟩, ⟨opening, hopening, rfl⟩,
    rfl⟩, ⟨e, he⟩, rfl⟩, ⟨closing, hclosing, rfl⟩, rfl⟩, ⟨d, thenBranch, hthen⟩, rfl⟩, hws,
    rfl⟩ := h
  rcases hws with rfl | ⟨_, rest, ⟨other, hother, rfl⟩, ⟨d', elseBranch, helse⟩, rfl⟩
  · exact ⟨_, _, by simpa using Statement.ifThen hkeyword hopening he hclosing hthen⟩
  · cases d with
    | false =>
      exact ⟨_, _, by simpa using Statement.ifElse hkeyword hopening he hclosing hthen hother helse⟩
    | true =>
      obtain ⟨d, r, hr⟩ := hthen.attach rfl hother helse
      exact ⟨_, _, by simpa using Statement.ifThen hkeyword hopening he hclosing hr⟩

lemma exists_statement {ts : List Token} (h : (rules .statement).Yields HasTree ts) :
    ∃ d s, Statement d ts s := by
  rcases h with (((((⟨us, semicolon, e, rfl, hsemicolon, he⟩ | h) | h) | h) | h) | h) |
    ⟨opening, us, closing, body, rfl, hopening, hbody, hclosing⟩
  · exact ⟨_, _, .expression he hsemicolon⟩
  · exact h
  · exact h
  · exact h
  · exact h
  · exact h
  · exact ⟨_, _, .block hopening hbody hclosing⟩

/-- Trees put together by a rule are trees of the rule. -/
theorem hasTree_of_yields (name : Rule) (ts : List Token) (h : (rules name).Yields HasTree ts) :
    HasTree name ts := by
  cases name with
  | program =>
    obtain ⟨_, _, ⟨parts, hparts, rfl⟩, ⟨mark, hmark, rfl⟩, rfl⟩ := h
    obtain ⟨ss, hss⟩ := exists_declarations hparts
    exact ⟨_, mark, ss, rfl, by simpa using hmark, hss⟩
  | declaration =>
    rcases h with ((⟨s, hs⟩ | ⟨s, hs⟩) | ⟨keyword, us, s, rfl, hkeyword, hs⟩) | ⟨d, s, hs⟩
    · exact ⟨_, s, hs⟩
    · exact ⟨_, s, hs⟩
    · exact ⟨_, s, .varDecl hkeyword hs⟩
    · exact ⟨d, s, .statement hs⟩
  | classDecl => exact exists_class h
  | funDecl =>
    obtain ⟨_, us, ⟨keyword, hkeyword, rfl⟩, ⟨decl, hdecl⟩, rfl⟩ := h
    exact ⟨_, .funDecl hkeyword hdecl⟩
  | function => exact exists_function h
  | parameters =>
    obtain ⟨_, _, ⟨t, ht, rfl⟩, ⟨parts, hparts, hlen, rfl⟩, rfl⟩ := h
    exact exists_names ht hlen hparts
  | varDecl => exact exists_variable h
  | statement => exact exists_statement h
  | exprStmt =>
    obtain ⟨us, _, ⟨e, he⟩, ⟨semicolon, hsemicolon, rfl⟩, rfl⟩ := h
    exact ⟨us, semicolon, e, rfl, hsemicolon, he⟩
  | forStmt => exact exists_for h
  | ifStmt => exact exists_if h
  | printStmt =>
    obtain ⟨_, _, ⟨_, us, ⟨keyword, hkeyword, rfl⟩, ⟨e, he⟩, rfl⟩, ⟨semicolon, hsemicolon, rfl⟩,
      rfl⟩ := h
    exact ⟨_, _, .print hkeyword he hsemicolon⟩
  | returnStmt =>
    obtain ⟨_, _, ⟨_, us, ⟨keyword, hkeyword, rfl⟩, hus, rfl⟩, ⟨semicolon, hsemicolon, rfl⟩,
      rfl⟩ := h
    obtain ⟨value, hvalue⟩ := exists_optional hus
    exact ⟨_, _, .ret hkeyword hvalue hsemicolon⟩
  | whileStmt =>
    obtain ⟨_, us, ⟨_, _, ⟨_, vs, ⟨_, _, ⟨keyword, hkeyword, rfl⟩, ⟨opening, hopening, rfl⟩, rfl⟩,
      ⟨e, he⟩, rfl⟩, ⟨closing, hclosing, rfl⟩, rfl⟩, ⟨d, body, hbody⟩, rfl⟩ := h
    exact ⟨_, _, by simpa using Statement.loop hkeyword hopening he hclosing hbody⟩
  | block =>
    obtain ⟨_, _, ⟨_, _, ⟨opening, hopening, rfl⟩, ⟨parts, hparts, rfl⟩, rfl⟩,
      ⟨closing, hclosing, rfl⟩, rfl⟩ := h
    obtain ⟨ss, hss⟩ := exists_declarations hparts
    exact ⟨opening, _, closing, ss, rfl, hopening, hss, hclosing⟩
  | expression => exact h
  | assignment => exact exists_assignment h
  | logicOr => exact exists_level .disjunction _ .logicAnd (fun _ h => h) h
  | logicAnd => exact exists_level .conjunction _ .equality (fun _ h => h) h
  | equality => exact exists_level .equality _ .comparison (fun _ h => h) h
  | comparison => exact exists_level .comparison _ .term (fun _ h => h) h
  | term => exact exists_level .term _ .factor (fun _ h => h) h
  | factor => exact exists_level .factor [] .unary (fun _ ⟨e, he⟩ => ⟨e, .unary he⟩) h
  | unary => exact exists_unary h
  | call =>
    obtain ⟨us, _, ⟨e, he⟩, ⟨parts, hparts, rfl⟩, rfl⟩ := h
    exact exists_call ⟨e, .primary he⟩ hparts
  | arguments =>
    obtain ⟨us, _, hus, ⟨parts, hparts, hlen, rfl⟩, rfl⟩ := h
    exact exists_entries hus hlen hparts
  | primary => exact exists_primary h

lemma hasTree_of_derivable {name : Rule} {ts : List Token} (h : Derivable name ts) :
    HasTree name ts :=
  h.yields hasTree_of_yields

/-- Programs derive with a tree of declarations, whatever the end mark is. -/
lemma derivable_program_iff {ts : List Token} {mark : Token} (hmark : mark.kind = .eof) :
    Derivable .program (ts ++ [mark]) ↔ ∃ ss, Declarations ts ss := by
  constructor
  · intro h
    obtain ⟨us, mark', ss, heq, -, hss⟩ := hasTree_of_derivable h
    obtain ⟨rfl, -⟩ := List.append_inj' heq rfl
    exact ⟨ss, hss⟩
  · rintro ⟨ss, hss⟩
    exact .rule (.seq hss.derives (.terminal (by simpa using hmark)))

end Grammar

lemma takeWhile_before_end {ts tokens : List Token} {mark : Token}
    (hts : ∀ t ∈ ts, t.kind ≠ .eof) (hmark : mark.kind = .eof)
    (htokens : tokens = ts ∨ tokens = ts ++ [mark]) :
    tokens.takeWhile (·.kind ≠ .eof) = ts := by
  have hall : ∀ t ∈ ts, decide (t.kind ≠ .eof) = true := by simpa using hts
  obtain ⟨rest, rfl, hrest⟩ : ∃ rest, tokens = ts ++ rest ∧
      rest.takeWhile (·.kind ≠ .eof) = [] := by
    rcases htokens with rfl | rfl
    · exact ⟨[], by simp, rfl⟩
    · exact ⟨[mark], rfl, by simp [hmark]⟩
  rw [List.takeWhile_append_of_pos hall, hrest, List.append_nil]

/-- The parser succeeds exactly on what the grammar derives, and then returns its tree. -/
theorem parse_ok_iff_derivable (ts : List Token) (hts : ∀ t ∈ ts, t.kind ≠ .eof) (mark : Token)
    (hmark : mark.kind = .eof) (tokens : List Token)
    (htokens : tokens = ts ∨ tokens = ts ++ [mark]) (k : ExprId) :
    ((∃ program, (parse tokens k).outcome = .ok program) ↔
        Grammar.Derivable .program (ts ++ [mark])) ∧
      ∀ program, (parse tokens k).outcome = .ok program →
        Tree.Declarations ts program ∧
          ∀ other, Tree.Declarations ts other →
            Stmt.unnumberedAll other = Stmt.unnumberedAll program := by
  have hread : ∀ program, (parse tokens k).outcome = .ok program →
      ∃ k', Reading.Declarations k ts program k' [] := by
    intro program h
    have hparse := parse_eq_ok_iff.mp (show parse tokens k = ⟨.ok program, _⟩ by rw [← h])
    rw [takeWhile_before_end hts hmark htokens] at hparse
    exact ⟨_, hparse⟩
  have hparse : ∀ {program k'}, Reading.Declarations k ts program k' [] →
      parse tokens k = ⟨.ok program, k'⟩ := by
    intro program k' h
    rw [parse_eq_ok_iff, takeWhile_before_end hts hmark htokens]
    exact h
  rw [Grammar.derivable_program_iff hmark]
  refine ⟨⟨?_, ?_⟩, ?_⟩
  · rintro ⟨program, h⟩
    obtain ⟨k', hprogram⟩ := hread program h
    exact ⟨program, hprogram.tree rfl⟩
  · rintro ⟨ss, hss⟩
    obtain ⟨program, k', hprogram, -⟩ := hss.reading k
    exact ⟨program, by rw [hparse hprogram]⟩
  · intro program h
    obtain ⟨k', hprogram⟩ := hread program h
    refine ⟨hprogram.tree rfl, fun other hother => ?_⟩
    -- another tree is read from the same number on, so the parser returns it too
    obtain ⟨program', k'', hprogram', heq⟩ := hother.reading k
    have hsame := (hparse hprogram).symm.trans (hparse hprogram')
    obtain ⟨rfl, -⟩ : program = program' ∧ k' = k'' := by simpa using hsame
    exact heq.symm

/-- The tokens of `wenn (a) wenn (b) a; sonst b;`. -/
def openElse : List Token :=
  [⟨.keyword .wenn, "wenn", 1⟩, ⟨.symbol .leftParen, "(", 1⟩, ⟨.identifier, "a", 1⟩,
    ⟨.symbol .rightParen, ")", 1⟩, ⟨.keyword .wenn, "wenn", 1⟩, ⟨.symbol .leftParen, "(", 1⟩,
    ⟨.identifier, "b", 1⟩, ⟨.symbol .rightParen, ")", 1⟩, ⟨.identifier, "a", 1⟩,
    ⟨.symbol .semicolon, ";", 1⟩, ⟨.keyword .sonst, "sonst", 1⟩, ⟨.identifier, "b", 1⟩,
    ⟨.symbol .semicolon, ";", 1⟩]

theorem parse_openElse :
    (∀ t ∈ openElse, t.kind ≠ .eof) ∧
      Grammar.Derivable .program (openElse ++ [⟨.eof, "", 1⟩]) ∧
      ∀ other, Tree.Declarations openElse other → Stmt.unnumberedAll other =
        [.ifElse (.var 0 ⟨.identifier, "a", 1⟩)
          (.ifElse (.var 0 ⟨.identifier, "b", 1⟩) (.expression (.var 0 ⟨.identifier, "a", 1⟩))
            (some (.expression (.var 0 ⟨.identifier, "b", 1⟩)))) none] := by
  have hparse : (parse openElse 0).outcome = .ok
      [.ifElse (.var 0 ⟨.identifier, "a", 1⟩)
        (.ifElse (.var 1 ⟨.identifier, "b", 1⟩) (.expression (.var 2 ⟨.identifier, "a", 1⟩))
          (some (.expression (.var 3 ⟨.identifier, "b", 1⟩)))) none] := by
    decide +kernel
  have hexact := parse_ok_iff_derivable openElse (by decide) ⟨.eof, "", 1⟩ rfl openElse (.inl rfl) 0
  exact ⟨by decide, hexact.1.mp ⟨_, hparse⟩, (hexact.2 _ hparse).2⟩

end GermanLox
