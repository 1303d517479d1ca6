import GermanLox.Proofs.Grammar.Ebnf
import GermanLox.Proofs.Grammar.Tree

/-!
# Derivations and trees

Every tree of the grammar has a derivation by its rules, and whatever the rules derive has a tree.
The rules leave open which `wenn` a `sonst` belongs to: a derivation that gives it to an outer one
has a tree all the same, with the `sonst` at the innermost `wenn` that is open.
-/

namespace GermanLox
namespace Grammar

open Ebnf

/-- The signs of a level of operators. -/
def operator : Precedence → Ebnf Rule
  | .disjunction => word .oder
  | .conjunction => word .und
  | .equality => symbol .bangEqual ||| symbol .equalEqual
  | .comparison => symbol .greater ||| symbol .greaterEqual ||| symbol .less ||| symbol .lessEqual
  | .term => symbol .minus ||| symbol .plus
  | .factor => symbol .slash ||| symbol .star

/-- The rule for the operators of some levels, by the loosest one. -/
def Rule.ofLevels : List Precedence → Rule
  | [] => .unary
  | .disjunction :: _ => .logicOr
  | .conjunction :: _ => .logicAnd
  | .equality :: _ => .equality
  | .comparison :: _ => .comparison
  | .term :: _ => .term
  | .factor :: _ => .factor

/-- All levels of operators have the same shape. -/
lemma rules_ofLevels {p : Precedence} {ps : List Precedence} (h : p :: ps <:+ Precedence.tower) :
    rules (Rule.ofLevels (p :: ps)) =
      rule (Rule.ofLevels ps) ++ many (operator p ++ rule (Rule.ofLevels ps)) := by
  simp only [Precedence.tower, List.suffix_cons_iff, List.cons.injEq, List.suffix_nil,
    reduceCtorEq, or_false] at h
  rcases h with ⟨rfl, rfl⟩ | ⟨rfl, rfl⟩ | ⟨rfl, rfl⟩ | ⟨rfl, rfl⟩ | ⟨rfl, rfl⟩ | ⟨rfl, rfl⟩ <;> rfl

lemma derives_operator {p : Precedence} {t : Token} {node : ExprId → Expr → Expr → Expr}
    (h : Tree.Sign p t node) : Derives rules (operator p) [t] := by
  cases h with
  | or ht => exact .terminal ht
  | and ht => exact .terminal ht
  | notEqual ht => exact .left (.terminal ht)
  | equal ht => exact .right (.terminal ht)
  | greater ht => exact .left (.left (.left (.terminal ht)))
  | greaterEqual ht => exact .left (.left (.right (.terminal ht)))
  | less ht => exact .left (.right (.terminal ht))
  | lessEqual ht => exact .right (.terminal ht)
  | subtract ht => exact .left (.terminal ht)
  | add ht => exact .right (.terminal ht)
  | divide ht => exact .left (.terminal ht)
  | multiply ht => exact .right (.terminal ht)

lemma derivable_literal {t : Token} {value : Literal} (h : Literal.ofKind? t.kind = some value) :
    Derivable .primary [t] := by
  refine .rule (.left (.left (.left (.left ?_))))
  unfold Literal.ofKind? at h
  split at h <;> rename_i hk <;> cases h
  · exact .left (.right (.terminal (Parser.isKeyword_of_kind hk)))
  · exact .left (.left (.right (.terminal (Parser.isKeyword_of_kind hk))))
  · exact .right (.terminal (Parser.isKeyword_of_kind hk))
  · exact .left (.left (.left (.left (.terminal (by simp [hk])))))
  · exact .left (.left (.left (.right (.terminal (by simp [hk])))))

/-- A derivation of a rule's right-hand side, for another way to write down the tokens. -/
lemma derivable_of {name : Rule} {ts us : List Token} (h : Derives rules (rules name) ts)
    (hts : us = ts) : Derivable name us := by
  rw [hts]
  exact .rule h

lemma derives_symbol {t : Token} {s : Symbol} (h : t.isSymbol s) :
    Derives rules (symbol s) [t] :=
  .terminal h

lemma derives_word {t : Token} {k : Keyword} (h : t.isKeyword k) : Derives rules (word k) [t] :=
  .terminal h

lemma derives_ident {t : Token} (h : t.isIdentifier) : Derives rules ident [t] :=
  .terminal h

/-- An operand of the tighter levels with further ones of the loosest level behind it. -/
def DerivesLevels : List Precedence → List Token → Prop
  | [], ts => Derivable .unary ts
  | p :: ps, ts => ∃ us vs, ts = us ++ vs ∧ Derivable (Rule.ofLevels ps) us ∧
    Derives rules (many (operator p ++ rule (Rule.ofLevels ps))) vs

lemma DerivesLevels.derivable {ps : List Precedence} {ts : List Token} (h : DerivesLevels ps ts)
    (hps : ps <:+ Precedence.tower) : Derivable (Rule.ofLevels ps) ts := by
  cases ps with
  | nil => exact h
  | cons p ps =>
    obtain ⟨us, vs, rfl, hus, hvs⟩ := h
    refine .rule ?_
    rw [rules_ofLevels hps]
    exact .seq hus hvs

end Grammar

namespace Tree

open Grammar Ebnf

mutual

theorem Primary.derivable {ts e} (h : Primary ts e) : Derivable .primary ts := by
  match h with
  | .literal h => exact derivable_literal h
  | .super ht hdot hmethod =>
    exact .rule (.left (.left (.right
      (.seq (.seq (derives_word ht) (derives_symbol hdot)) (derives_ident hmethod)))))
  | .this ht => exact .rule (.left (.right (derives_word ht)))
  | .var ht => exact .rule (.right (derives_ident ht))
  | .grouping hopening he hclosing =>
    exact .rule (.left (.left (.left (.right
      (.seq (.seq (derives_symbol hopening) (.rule he.derivable)) (derives_symbol hclosing))))))

/-- A call is a primary form with suffixes. -/
theorem Call.derives {ts e} (h : Call ts e) : ∃ us vs, ts = us ++ vs ∧ Derivable .primary us ∧
    Derives rules (many (symbol .leftParen ++ opt (rule .arguments) ++ symbol .rightParen |||
      symbol .dot ++ ident)) vs := by
  match h with
  | .primary h => exact ⟨ts, [], by simp, h.derivable, .done⟩
  | .call hcallee hopening hargs hclosing =>
    obtain ⟨us, vs, rfl, hus, hvs⟩ := hcallee.derives
    have hsuffix := Derives.seq (.seq (derives_symbol hopening) hargs.derives)
      (derives_symbol hclosing)
    exact ⟨us, _, by simp, hus, hvs.many_snoc (.left hsuffix)⟩
  | .get hobject hdot hname =>
    obtain ⟨us, vs, rfl, hus, hvs⟩ := hobject.derives
    have hsuffix := Derives.seq (derives_symbol hdot) (derives_ident hname)
    exact ⟨us, _, by simp, hus, hvs.many_snoc (.right hsuffix)⟩

theorem Arguments.derives {ts es} (h : Arguments ts es) :
    Derives rules (opt (rule .arguments)) ts := by
  match h with
  | .none => exact .absent
  | .some h hlen =>
    obtain ⟨us, vs, rfl, hus, hvs⟩ := h.derives (Parser.maxEntries - 1) hlen
    exact .present (.rule (.seq hus hvs))

theorem Entries.derives {ts es} (h : Entries ts es) (n : Nat) (hn : es.length ≤ n + 1) :
    ∃ us vs, ts = us ++ vs ∧ Derivable .expression us ∧
      Derives rules (upTo n (symbol .comma ++ rule .expression)) vs := by
  match h with
  | .last he => exact ⟨ts, [], by simp, .rule he.derivable, .enough⟩
  | @Entries.more ts e comma us es he hcomma hes =>
    obtain ⟨n, rfl⟩ : ∃ n', n = n' + 1 := by
      match hes with
      | .last _ => exact ⟨n - 1, by simp at hn; omega⟩
      | .more _ _ _ => exact ⟨n - 1, by simp at hn; omega⟩
    obtain ⟨vs, ws, rfl, hvs, hws⟩ := hes.derives n (by simpa using hn)
    refine ⟨ts, comma :: vs ++ ws, by simp, .rule he.derivable, ?_⟩
    exact .further (.seq (derives_symbol hcomma) hvs) hws

theorem Unary.derivable {ts e} (h : Unary ts e) : Derivable .unary ts := by
  match h with
  | .call h =>
    obtain ⟨us, vs, rfl, hus, hvs⟩ := h.derives
    exact .rule (.right (.rule (.seq hus hvs)))
  | .not ht he => exact .rule (.left (.seq (.left (.terminal ht)) he.derivable))
  | .negate ht he => exact .rule (.left (.seq (.right (.terminal ht)) he.derivable))

theorem Operation.derives {ps ts e} (h : Operation ps ts e) (hps : ps <:+ Precedence.tower) :
    DerivesLevels ps ts := by
  match h with
  | .unary h => exact h.derivable
  | @Operation.operand p ps _ _ h =>
    have htail := (List.suffix_cons p ps).trans hps
    exact ⟨ts, [], by simp, (h.derives htail).derivable htail, .done⟩
  | @Operation.sign _ p ps _ _ _ _ _ _ hleft hsign hright =>
    have htail := (List.suffix_cons p ps).trans hps
    obtain ⟨us, vs, rfl, hus, hvs⟩ := hleft.derives hps
    have hmore := Derives.seq (derives_operator hsign) ((hright.derives htail).derivable htail)
    exact ⟨us, _, by simp, hus, hvs.many_snoc hmore⟩

theorem Expression.derivable {ts e} (h : Expression ts e) : Derivable .assignment ts := by
  match h with
  | .operation h =>
    have htower := List.suffix_refl Precedence.tower
    exact .rule (.right ((h.derives htower).derivable htower))
  | .assign hname hsign hvalue =>
    exact .rule (.left (.seq (.seq (.seq .absent (derives_ident hname)) (derives_symbol hsign))
      hvalue.derivable))
  | @Expression.set _ ts object dot name sign us value hobject hdot hname hsign hvalue =>
    obtain ⟨vs, ws, rfl, hvs, hws⟩ := hobject.derives
    have hcall : Derivable .call (vs ++ ws) := .rule (.seq hvs hws)
    have hset := Derives.seq (.seq (.seq (.present (.seq hcall (derives_symbol hdot)))
      (derives_ident hname)) (derives_symbol hsign)) hvalue.derivable
    exact .rule (.left (by simpa using hset))

end

lemma Expression.derivable_expression {ts e} (h : Expression ts e) : Derivable .expression ts :=
  .rule h.derivable

lemma Optional.derives {ts e} (h : Optional ts e) : Derives rules (opt (rule .expression)) ts := by
  cases h with
  | none => exact .absent
  | some h => exact .present h.derivable_expression

lemma Condition.derives {ts e} (h : Condition ts e) :
    Derives rules (opt (rule .expression)) ts := by
  cases h with
  | always => exact .absent
  | expression h => exact .present h.derivable_expression

lemma Names.derives {ts names} (h : Names ts names) (n : Nat) (hn : names.length ≤ n + 1) :
    ∃ us vs, ts = us ++ vs ∧ Derives rules ident us ∧
      Derives rules (upTo n (symbol .comma ++ ident)) vs := by
  induction h generalizing n with
  | @last t ht => exact ⟨[t], [], by simp, derives_ident ht, .enough⟩
  | @more t comma us names ht hcomma hnames ih =>
    obtain ⟨n, rfl⟩ : ∃ n', n = n' + 1 := by
      cases hnames <;> exact ⟨n - 1, by simp at hn; omega⟩
    obtain ⟨vs, ws, rfl, hvs, hws⟩ := ih n (by simpa using hn)
    refine ⟨[t], comma :: vs ++ ws, by simp, derives_ident ht, ?_⟩
    exact .further (.seq (derives_symbol hcomma) hvs) hws

lemma Parameters.derives {ts names} (h : Parameters ts names) :
    Derives rules (opt (rule .parameters)) ts := by
  cases h with
  | none => exact .absent
  | some h hlen =>
    obtain ⟨us, vs, rfl, hus, hvs⟩ := h.derives (Parser.maxEntries - 1) hlen
    exact .present (.rule (.seq hus hvs))

lemma Variable.derivable {keyword ts s} (hkeyword : keyword.isKeyword .var) (h : Variable ts s) :
    Derivable .varDecl (keyword :: ts) := by
  have hword := derives_word hkeyword
  cases h with
  | plain hname hsemicolon =>
    exact .rule (.seq (.seq (.seq hword (derives_ident hname)) .absent)
      (derives_symbol hsemicolon))
  | initialized hname hsign he hsemicolon =>
    have hvalue := Derives.present (.seq (derives_symbol hsign) he.derivable_expression)
    have hdecl := Derives.seq (.seq (.seq hword (derives_ident hname)) hvalue)
      (derives_symbol hsemicolon)
    exact derivable_of hdecl (by simp)

lemma exprStmt_derivable {ts e semicolon} (he : Expression ts e)
    (hsemicolon : semicolon.isSymbol .semicolon) : Derivable .exprStmt (ts ++ [semicolon]) :=
  .rule (.seq he.derivable_expression (derives_symbol hsemicolon))

lemma Initializer.derives {ts s} (h : Initializer ts s) :
    Derives rules (rule .varDecl ||| rule .exprStmt ||| symbol .semicolon) ts := by
  cases h with
  | none h => exact .right (derives_symbol h)
  | varDecl hkeyword h => exact .left (.left (h.derivable hkeyword))
  | expression he hsemicolon => exact .left (.right (exprStmt_derivable he hsemicolon))

lemma Superclass.derives {ts parent} (h : Superclass ts parent) :
    Derives rules (opt (symbol .less ++ ident)) ts := by
  cases h with
  | none => exact .absent
  | some hsign hname => exact .present (.seq (derives_symbol hsign) (derives_ident hname))

mutual

theorem Statement.derivable {dangling ts s} (h : Statement dangling ts s) :
    Derivable .statement ts := by
  match h with
  | .expression he hsemicolon =>
    exact .rule (.left (.left (.left (.left (.left (.left (exprStmt_derivable he hsemicolon)))))))
  | .print hkeyword he hsemicolon =>
    have hprint := Derives.seq (.seq (derives_word hkeyword) he.derivable_expression)
      (derives_symbol hsemicolon)
    exact .rule (.left (.left (.left (.right (.rule hprint)))))
  | .ret hkeyword hvalue hsemicolon =>
    have hreturn := Derives.seq (.seq (derives_word hkeyword) hvalue.derives)
      (derives_symbol hsemicolon)
    exact .rule (.left (.left (.right (.rule hreturn))))
  | .block hopening hbody hclosing =>
    have hblock := Derives.seq (.seq (derives_symbol hopening) hbody.derives)
      (derives_symbol hclosing)
    exact .rule (.right (.rule hblock))
  | .loop hkeyword hopening he hclosing hbody =>
    have hloop := Derives.seq (.seq (.seq (.seq (derives_word hkeyword) (derives_symbol hopening))
      he.derivable_expression) (derives_symbol hclosing)) hbody.derivable
    exact .rule (.left (.right (derivable_of hloop (by simp))))
  | .count hkeyword hopening hfirst hcondition hsemicolon hincrement hclosing hbody =>
    have hclauses := Derives.seq (.seq (.seq (.seq (.seq (derives_word hkeyword)
      (derives_symbol hopening)) hfirst.derives) hcondition.derives) (derives_symbol hsemicolon))
      hincrement.derives
    have hfor := Derives.seq (.seq hclauses (derives_symbol hclosing)) hbody.derivable
    exact .rule (.left (.left (.left (.left (.left (.right (derivable_of hfor (by simp))))))))
  | .ifThen hkeyword hopening he hclosing hthen =>
    have hif := Derives.seq (.seq (.seq (.seq (derives_word hkeyword) (derives_symbol hopening))
      he.derivable_expression) (derives_symbol hclosing)) hthen.derivable
    exact .rule (.left (.left (.left (.left (.right (derivable_of (.seq hif .absent) (by simp)))))))
  | .ifElse hkeyword hopening he hclosing hthen hother helse =>
    have hif := Derives.seq (.seq (.seq (.seq (.seq (derives_word hkeyword)
      (derives_symbol hopening)) he.derivable_expression) (derives_symbol hclosing))
      hthen.derivable) (.present (.seq (derives_word hother) helse.derivable))
    exact .rule (.left (.left (.left (.left (.right (derivable_of hif (by simp)))))))

theorem Declaration.derivable {dangling ts s} (h : Declaration dangling ts s) :
    Derivable .declaration ts := by
  match h with
  | .classDecl hkeyword hname hparent hopening hmethods hclosing =>
    have hclass := Derives.seq (.seq (.seq (.seq (.seq (derives_word hkeyword)
      (derives_ident hname)) hparent.derives) (derives_symbol hopening)) hmethods.derives)
      (derives_symbol hclosing)
    exact .rule (.left (.left (.left (derivable_of hclass (by simp)))))
  | .funDecl hkeyword hdecl =>
    exact .rule (.left (.left (.right (.rule (.seq (derives_word hkeyword) hdecl.derivable)))))
  | .varDecl hkeyword h => exact .rule (.left (.right (h.derivable hkeyword)))
  | .statement h => exact .rule (.right h.derivable)

theorem Declarations.derives {ts ss} (h : Declarations ts ss) :
    Derives rules (many (rule .declaration)) ts := by
  match h with
  | .nil => exact .done
  | .cons hs hss => exact .again hs.derivable hss.derives

theorem Function.derivable {ts decl} (h : Function ts decl) : Derivable .function ts := by
  match h with
  | .mk hname hopening hparams hclosing hbrace hbody hclosing' =>
    have hblock : Derivable .block _ := .rule (.seq (.seq (derives_symbol hbrace) hbody.derives)
      (derives_symbol hclosing'))
    have hfunction := Derives.seq (.seq (.seq (.seq (derives_ident hname)
      (derives_symbol hopening)) hparams.derives) (derives_symbol hclosing)) hblock
    exact derivable_of hfunction (by simp)

theorem Functions.derives {ts decls} (h : Functions ts decls) :
    Derives rules (many (rule .function)) ts := by
  match h with
  | .nil => exact .done
  | .cons hdecl hdecls => exact .again hdecl.derivable hdecls.derives

end

end Tree
end GermanLox
