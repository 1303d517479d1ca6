import GermanLox.Proofs.Grammar.Notes
import Mathlib.Algebra.Order.BigOperators.Group.List
import Mathlib.Algebra.Order.Group.Nat

/-!
# Lists past the limit

Without the limit on lists of arguments and parameters the grammar derives more, and all of it is
parsed to the end. Each entry past the limit is reported where it starts, and nothing else is. So a
list that is too long is reported as often as it has entries too many, and lists are reported one
for one only if each of them has a single entry too many.
-/

namespace GermanLox

/-- The diagnostic of an entry of a list past the limit, where the entry starts. -/
def Diagnostic.pastLimit (cause : SyntaxFault) (entry : ParseTree Grammar.Rule) : Diagnostic :=
  .syntactic (Reading.firstLine entry.tokens) cause

/-- The cause of a diagnostic of the grammar. -/
def Diagnostic.syntaxFault? : Diagnostic → Option SyntaxFault
  | syntactic _ cause => some cause
  | _ => none

/-- All that is reported of a list of tokens. -/
def Parsed.diagnostics (parsed : Parsed) : List Diagnostic :=
  match parsed.outcome with
  | .ok _ => []
  | .error ds => ds

namespace ParseTree

open Grammar

/-- What is wrong with a list of arguments or of parameters if it is too long. Nothing else in a
parse tree is a list. -/
def listFault? : ParseTree Rule → Option SyntaxFault
  | node .arguments _ => some .tooManyArguments
  | node .parameters _ => some .tooManyParameters
  | _ => none

/-- The parts that are no commas. In a list these are its entries. -/
def entries : ParseTree Rule → List (ParseTree Rule)
  | token _ => []
  | node _ parts => parts.filter (!·.isComma)

/-- Whether a parse tree is a list with more entries than a list should have. -/
def isOverlong (p : ParseTree Rule) : Bool :=
  p.listFault?.isSome && Parser.maxEntries < p.entries.length

/-- The lists in a parse tree that are too long, inner ones first. -/
def overlongLists (p : ParseTree Rule) : List (ParseTree Rule) :=
  p.nodes.filter isOverlong

/-- The diagnostics of a list: one for each entry past the limit. -/
def surplus (list : ParseTree Rule) : List Diagnostic :=
  list.listFault?.toList.flatMap fun cause =>
    (list.entries.drop Parser.maxEntries).map (.pastLimit cause)

/-- Whether diagnostics report some lists one for one, each by its own cause. -/
def ReportsEachOnce (ds : List Diagnostic) (lists : List (ParseTree Rule)) : Prop :=
  (ds.map Diagnostic.syntaxFault?).Perm (lists.map listFault?)

lemma isOverlong_iff {p : ParseTree Rule} :
    p.isOverlong ↔ (∃ cause, p.listFault? = some cause) ∧ Parser.maxEntries < p.entries.length := by
  simp [isOverlong, Option.isSome_iff_exists]

lemma isOverlong_of_mem {p list : ParseTree Rule} (h : list ∈ p.overlongLists) : list.isOverlong :=
  (List.mem_filter.mp h).2

lemma surplus_of_fault {list : ParseTree Rule} {cause : SyntaxFault}
    (h : list.listFault? = some cause) :
    list.surplus = (list.entries.drop Parser.maxEntries).map (.pastLimit cause) := by
  simp [surplus, h]

/-- A list within the limit has no diagnostics. -/
lemma surplus_of_not_isOverlong {p : ParseTree Rule} (h : p.isOverlong = false) :
    p.surplus = [] := by
  cases hfault : p.listFault? with
  | none => simp [surplus, hfault]
  | some cause =>
    have hlen : p.entries.length ≤ Parser.maxEntries := by simpa [isOverlong, hfault] using h
    rw [surplus_of_fault hfault, List.drop_of_length_le hlen, List.map_nil]

/-- A list is reported as often as it has entries too many. -/
lemma length_surplus {list : ParseTree Rule} (h : list.isOverlong) :
    list.surplus.length = list.entries.length - Parser.maxEntries := by
  obtain ⟨⟨cause, hfault⟩, -⟩ := isOverlong_iff.mp h
  simp [surplus_of_fault hfault]

lemma surplus_ne_nil {list : ParseTree Rule} (h : list.isOverlong) : list.surplus ≠ [] := by
  have hlen := (isOverlong_iff.mp h).2
  rw [ne_eq, ← List.length_eq_zero_iff, length_surplus h]
  omega

lemma flatMap_surplus_filter (ps : List (ParseTree Rule)) :
    (ps.filter isOverlong).flatMap surplus = ps.flatMap surplus := by
  induction ps with
  | nil => rfl
  | cons p ps ih =>
    rw [List.filter_cons, List.flatMap_cons, ← ih]
    split
    · rw [List.flatMap_cons]
    next h => rw [surplus_of_not_isOverlong (by simpa using h), List.nil_append]

lemma flatMap_surplus_eq_nil_iff {lists : List (ParseTree Rule)}
    (hlists : ∀ list ∈ lists, list.isOverlong) : lists.flatMap surplus = [] ↔ lists = [] := by
  rw [List.flatMap_eq_nil_iff]
  constructor
  · intro h
    rw [List.eq_nil_iff_forall_not_mem]
    exact fun list hmem => surplus_ne_nil (hlists list hmem) (h list hmem)
  · rintro rfl list hmem
    cases hmem

lemma map_syntaxFault?_surplus {list : ParseTree Rule} (h : list.isOverlong) :
    list.surplus.map Diagnostic.syntaxFault? =
      List.replicate (list.entries.length - Parser.maxEntries) list.listFault? := by
  obtain ⟨⟨cause, hfault⟩, -⟩ := isOverlong_iff.mp h
  rw [surplus_of_fault hfault, hfault, List.map_map, ← List.length_drop, ← List.map_const]
  rfl

/-- Lists are reported one for one exactly if each of them has one entry too many. With more there
are more diagnostics than lists. -/
lemma reportsEachOnce_iff {lists : List (ParseTree Rule)}
    (hlists : ∀ list ∈ lists, list.isOverlong) {ds : List Diagnostic}
    (hds : ds.Perm (lists.flatMap surplus)) :
    ReportsEachOnce ds lists ↔ ∀ list ∈ lists, list.entries.length = Parser.maxEntries + 1 := by
  constructor
  · intro honce
    have hlen : (lists.flatMap surplus).length = lists.length := by
      simpa [hds.length_eq] using honce.length_eq
    have hpos : ∀ list ∈ lists, 1 ≤ list.surplus.length := fun list hmem =>
      List.length_pos_iff.mpr (surplus_ne_nil (hlists list hmem))
    -- every list has a report, so a list with two of them makes more reports than lists
    by_contra hmore
    push Not at hmore
    obtain ⟨list, hmem, hne⟩ := hmore
    have hlimit := (isOverlong_iff.mp (hlists list hmem)).2
    have hlt : 1 < list.surplus.length := by
      rw [length_surplus (hlists list hmem)]
      omega
    have hsum := List.sum_lt_sum (fun _ => 1) (fun list => list.surplus.length) hpos
      ⟨list, hmem, hlt⟩
    rw [List.length_flatMap] at hlen
    simp [hlen] at hsum
  · intro hone
    have hsingle : ∀ list ∈ lists,
        list.surplus.map Diagnostic.syntaxFault? = [list.listFault?] := by
      intro list hmem
      rw [map_syntaxFault?_surplus (hlists list hmem), hone list hmem, Nat.add_sub_cancel_left]
      rfl
    have hmap : (lists.flatMap surplus).map Diagnostic.syntaxFault? = lists.map listFault? := by
      rw [List.map_flatMap, List.flatMap_congr hsingle, List.map_eq_flatMap]
    exact (hds.map _).trans (.of_eq hmap)

lemma Divided.filter_eq {parts es : List (ParseTree Rule)} (h : Divided parts es) :
    parts.filter (!·.isComma) = es := by
  induction h with
  | last hentry => simp [hentry]
  | more hentry hcomma _ ih => simp [hentry, hcomma, ih]

/-- With `count` entries before it, the first entry is past the limit or there is room for it. -/
lemma map_drop_cons (cause : SyntaxFault) (count : Nat) (entry : ParseTree Rule)
    (es : List (ParseTree Rule)) :
    ((entry :: es).drop (Parser.maxEntries - count)).map (.pastLimit cause) =
      Reading.overlong cause count entry.tokens ++
        (es.drop (Parser.maxEntries - (count + 1))).map (.pastLimit cause) := by
  by_cases hcount : Parser.maxEntries ≤ count
  · have hnext := Nat.sub_eq_zero_of_le (Nat.le_succ_of_le hcount)
    rw [Nat.sub_eq_zero_of_le hcount, hnext, Reading.overlong, if_pos hcount]
    rfl
  · have hnext : Parser.maxEntries - count = Parser.maxEntries - (count + 1) + 1 := by omega
    rw [hnext, List.drop_succ_cons, Reading.overlong, if_neg hcount, List.nil_append]

/-- The notes of a list are those of its entries past the limit and those inside the entries. -/
lemma Divided.entryNotes_perm {parts es : List (ParseTree Rule)} (h : Divided parts es)
    (cause : SyntaxFault) (count : Nat) :
    (entryNotes cause count parts).Perm
      ((es.drop (Parser.maxEntries - count)).map (.pastLimit cause) ++ notesAll parts) := by
  induction h generalizing count with
  | last hentry =>
    rw [map_drop_cons]
    simp [entryNotes, hentry]
  | @more entry comma parts es hentry hcomma h ih =>
    -- the notes inside this entry come before those of the later entries past the limit
    have hinner := ((ih (count + 1)).append_left entry.notes).trans (List.perm_append_comm_assoc ..)
    rw [map_drop_cons]
    simpa [entryNotes, hentry, hcomma] using hinner.append_left _

end ParseTree

namespace Grammar

open Ebnf GermanLox.Reading GermanLox.ParseTree

/-- The rules without a limit on lists. -/
def unlimited (name : Rule) : Ebnf Rule :=
  (rules name).unbounded

/-- The grammar has no assignment to what takes none. -/
lemma badSign?_of_fits {meaning : Rule → ParseTree Rule → Prop} {parts : List (ParseTree Rule)}
    (h : (unlimited .assignment).Fits meaning parts) :
    badSign? (node .assignment parts) = none := by
  rcases h with ⟨_, _, ⟨_, _, ⟨_, _, htarget, ⟨name, hname, rfl⟩, rfl⟩, ⟨sign, -, rfl⟩, rfl⟩,
    ⟨value, -, rfl⟩, rfl⟩ | ⟨inner, -, rfl⟩
  · rcases htarget with rfl | ⟨_, _, ⟨object, -, rfl⟩, ⟨dot, -, rfl⟩, rfl⟩
    · exact if_pos hname
    · rfl
  · rfl

lemma notes_assignment {meaning : Rule → ParseTree Rule → Prop} {parts : List (ParseTree Rule)}
    (h : (unlimited .assignment).Fits meaning parts) :
    (node .assignment parts).notes = notesAll parts := by
  simp [notes, badSign?_of_fits h]

lemma reads_assignment {parts : List (ParseTree Rule)}
    (h : (unlimited .assignment).Fits Reads parts) :
    Reads .assignment (.node .assignment parts) := by
  intro k
  rw [notes_assignment h]
  rcases h with ⟨_, _, ⟨_, _, ⟨_, _, htarget, ⟨name, hname, rfl⟩, rfl⟩, ⟨sign, hsign, rfl⟩, rfl⟩,
    ⟨value, hvalue, rfl⟩, rfl⟩ | ⟨inner, hinner, rfl⟩
  · rcases htarget with rfl | ⟨_, _, ⟨object, hobject, rfl⟩, ⟨dot, hdot, rfl⟩, rfl⟩
    · -- the target is read as an operation first, and its number is used up
      have hvar : Operation Precedence.tower k [name] (.var k name) (k + 1) [] :=
        Tree.operation_of_call (.primary (.var hname)) _
      obtain ⟨e, k', he⟩ := hvalue (k + 1)
      exact ⟨_, _, by simpa using Expression.assign hvar hsign he⟩
    · obtain ⟨e₁, k₁, he₁, -⟩ := hobject k
      obtain ⟨e, k', he⟩ := hvalue (k₁ + 1)
      have hget := Tree.operation_of_call (.get he₁ hdot hname) Precedence.tower
      exact ⟨_, _, by simpa using Expression.set hget hsign he⟩
  · obtain ⟨e, k', he, -⟩ := hinner k
    exact ⟨e, k', by simpa using Expression.operation he⟩

lemma reads_unlimited {name : Rule} {parts : List (ParseTree Rule)}
    (h : (unlimited name).Fits Reads parts) : Reads name (.node name parts) := by
  cases name with
  | assignment => exact reads_assignment h
  | _ => exact reads_of_fits (by simp) h

/-- The parts of a list are divided by commas. -/
lemma divided_of_fits {meaning : Rule → ParseTree Rule → Prop} {name : Rule}
    {parts : List (ParseTree Rule)} (h : (unlimited name).Fits meaning parts)
    (hlist : (node name parts).listFault?.isSome) :
    Divided parts (node name parts).entries := by
  obtain ⟨es, hes⟩ : ∃ es, Divided parts es := by
    cases name with
    | arguments =>
      obtain ⟨_, _, hfirst, ⟨inner, hinner, rfl⟩, rfl⟩ := h
      obtain ⟨es, hes, -⟩ := exists_divided (isEntry_rule _ _) hfirst hinner
      exact ⟨es, hes⟩
    | parameters =>
      obtain ⟨_, _, hfirst, ⟨inner, hinner, rfl⟩, rfl⟩ := h
      obtain ⟨es, hes, -⟩ := exists_divided (isEntry_ident _) hfirst hinner
      exact ⟨es, hes⟩
    | _ => cases hlist
  rwa [← hes.filter_eq] at hes

/-- The notes of a node are its own and those of its parts. -/
lemma notes_perm {meaning : Rule → ParseTree Rule → Prop} {name : Rule}
    {parts : List (ParseTree Rule)} (h : (unlimited name).Fits meaning parts) :
    (node name parts).notes.Perm (notesAll parts ++ (node name parts).surplus) := by
  have hlist : ∀ {cause}, (node name parts).listFault? = some cause →
      (entryNotes cause 0 parts).Perm (notesAll parts ++ (node name parts).surplus) := by
    intro cause hfault
    have hdivided := divided_of_fits h (by simp [hfault])
    rw [surplus_of_fault hfault]
    exact (hdivided.entryNotes_perm cause 0).trans List.perm_append_comm
  cases name with
  | arguments => exact hlist rfl
  | parameters => exact hlist rfl
  | assignment => exact .of_eq ((notes_assignment h).trans (List.append_nil _).symm)
  | _ => exact .refl _

lemma notesAll_perm {parts : List (ParseTree Rule)}
    (h : ∀ p ∈ parts, p.notes.Perm (p.nodes.flatMap surplus)) :
    (notesAll parts).Perm ((nodesAll parts).flatMap surplus) := by
  induction parts with
  | nil => exact .refl _
  | cons p parts ih =>
    have hrest := ih fun q hq => h q (List.mem_cons_of_mem _ hq)
    simpa using (h p List.mem_cons_self).append hrest

/-- The entries past the limit of all lists are noted, and nothing else. -/
lemma notes_perm_of_fits {name : Rule} {parts : List (ParseTree Rule)}
    (h : (unlimited name).Fits (fun _ p => p.notes.Perm (p.nodes.flatMap surplus)) parts) :
    (node name parts).notes.Perm ((node name parts).nodes.flatMap surplus) := by
  have hparts : ∀ p ∈ parts, p.notes.Perm (p.nodes.flatMap surplus) := by
    intro p hp
    rcases h.of_mem hp with ⟨t, rfl⟩ | ⟨_, hp⟩
    · exact .refl _
    · exact hp
  have hnode := (notes_perm h).trans ((notesAll_perm hparts).append_right _)
  simpa using hnode

end Grammar

open Ebnf Grammar ParseTree

/-- What the grammar without a limit builds is parsed to the end, and the entries past the limit are
all that is reported. -/
lemma diagnostics_of_builds {p : ParseTree Rule} (h : Builds unlimited (rule .program) [p])
    {ts tokens : List Token} {mark : Token} (hp : p.tokens = ts ++ [mark])
    (htokens : tokens = ts ∨ tokens = ts ++ [mark]) (k : ExprId) :
    ((parse tokens k).diagnostics = [] → ∃ program, (parse tokens k).outcome = .ok program) ∧
      (parse tokens k).diagnostics.Perm (p.overlongLists.flatMap surplus) := by
  cases h with
  | @rule _ parts hparts =>
    have hreads : Reads .program (node .program parts) :=
      reads_unlimited (hparts.fits fun _ _ => reads_unlimited)
    have hnotes : (node .program parts).notes.Perm ((node .program parts).nodes.flatMap surplus) :=
      notes_perm_of_fits (hparts.fits fun _ _ => notes_perm_of_fits)
    obtain ⟨us, mark', hus, -, hne⟩ :=
      exists_mark (fun _ hname => (noMark_rules hname).unbounded) hparts
    obtain ⟨rfl, -⟩ := List.append_inj' (hp.symm.trans hus) rfl
    obtain ⟨program, k', hparse⟩ := parse_of_reads hreads hp hne htokens k
    rw [overlongLists, flatMap_surplus_filter]
    by_cases hnone : (node .program parts).notes = []
    · rw [hnone] at hparse hnotes
      rw [hparse]
      exact ⟨fun _ => ⟨program, rfl⟩, hnotes⟩
    · rw [if_neg (by simpa using hnone)] at hparse
      rw [hparse]
      exact ⟨fun h => absurd h hnone, hnotes⟩

lemma diagnostics_of_ok {parsed : Parsed} {program : List Stmt} (h : parsed.outcome = .ok program) :
    parsed.diagnostics = [] := by
  rw [Parsed.diagnostics, h]

/-- Of all that the grammar derives without a limit on lists, in whatever way, the entries past the
limit are reported, each where it starts, and nothing else. The lists that are too long are reported
one for one exactly if each of them has a single entry too many. -/
theorem parse_reports_surplus_entries {ts tokens : List Token} {mark : Token}
    (h : Derives unlimited (rule .program) (ts ++ [mark]))
    (htokens : tokens = ts ∨ tokens = ts ++ [mark]) (k : ExprId) :
    (∃ p, Builds unlimited (rule .program) [p] ∧ p.tokens = ts ++ [mark]) ∧
      (∀ line, (Diagnostic.syntactic line .tooManyArguments).message =
        "[Zeile " ++ line.repr ++ "] Fehler: " ++ "Kann nicht mehr als 255 Argumente haben.") ∧
      (∀ line, (Diagnostic.syntactic line .tooManyParameters).message =
        "[Zeile " ++ line.repr ++ "] Fehler: " ++ "Kann nicht mehr als 255 Parameter haben.") ∧
      ∀ p, Builds unlimited (rule .program) [p] → p.tokens = ts ++ [mark] →
        (∀ name parts, .node name parts ∈ p.nodes → (node name parts).listFault?.isSome →
          Divided parts (node name parts).entries) ∧
        ((∃ program, (parse tokens k).outcome = .ok program) ↔ p.overlongLists = []) ∧
        (parse tokens k).diagnostics.Perm (p.overlongLists.flatMap surplus) ∧
        (ReportsEachOnce (parse tokens k).diagnostics p.overlongLists ↔
          ∀ list ∈ p.overlongLists, list.entries.length = 256) := by
  refine ⟨?_, fun _ => rfl, fun _ => rfl, fun p hp hptokens => ?_⟩
  · obtain ⟨ps, hps, hall⟩ := h.exists_builds
    cases hps with
    | rule hparts => exact ⟨_, .rule hparts, by simpa using hall⟩
  have hlists : ∀ list ∈ p.overlongLists, list.isOverlong := fun _ => isOverlong_of_mem
  obtain ⟨hok, hperm⟩ := diagnostics_of_builds hp hptokens htokens k
  refine ⟨fun name parts hmem hlist => ?_, ⟨?_, ?_⟩, hperm, reportsEachOnce_iff hlists hperm⟩
  · have hbuilds : Builds unlimited (unlimited name) parts := hp.of_mem_nodes (by simpa using hmem)
    exact divided_of_fits (hbuilds.fits fun _ _ => reads_unlimited) hlist
  · rintro ⟨program, hprogram⟩
    rw [diagnostics_of_ok hprogram] at hperm
    exact (flatMap_surplus_eq_nil_iff hlists).mp hperm.nil_eq.symm
  · intro hnone
    rw [hnone, List.flatMap_nil] at hperm
    exact hok hperm.eq_nil

namespace ParseTree

/-- The name `a` as an expression, with suffixes behind it. -/
def named (suffixes : List (ParseTree Rule)) : ParseTree Rule :=
  .node .expression [.node .assignment [.node .logicOr [.node .logicAnd [.node .equality
    [.node .comparison [.node .term [.node .factor [.node .unary [.node .call
      (.node .primary [.token ⟨.identifier, "a", 1⟩] :: suffixes)]]]]]]]]]

/-- Names after the first argument of a call, each behind its comma. -/
def furtherNames : Nat → List (ParseTree Rule)
  | 0 => []
  | n + 1 => .token ⟨.symbol .comma, ",", 1⟩ :: named [] :: furtherNames n

/-- The arguments `first, a, …, a`. -/
def argumentList (first : ParseTree Rule) (n : Nat) : ParseTree Rule :=
  .node .arguments (first :: furtherNames n)

/-- The call `a(first, a, …, a)`. -/
def longCall (first : ParseTree Rule) (n : Nat) : ParseTree Rule :=
  named [.token ⟨.symbol .leftParen, "(", 1⟩, argumentList first n,
    .token ⟨.symbol .rightParen, ")", 1⟩]

/-- The program of one expression. -/
def oneStatement (e : ParseTree Rule) : ParseTree Rule :=
  .node .program [.node .declaration [.node .statement [.node .exprStmt
    [e, .token ⟨.symbol .semicolon, ";", 1⟩]]], .token ⟨.eof, "", 1⟩]

lemma builds_named {suffixes : List (ParseTree Rule)}
    (h : Builds unlimited (many (symbol .leftParen ++ opt (rule .arguments) ++
      symbol .rightParen ||| symbol .dot ++ ident)) suffixes) :
    Builds unlimited (rule .expression) [named suffixes] := by
  have hname : Token.isIdentifier ⟨.identifier, "a", 1⟩ := rfl
  have hprimary := @Builds.rule _ unlimited .primary _ (.right (.terminal hname))
  have hcall := @Builds.rule _ unlimited .call _ (.seq hprimary h)
  have hunary := @Builds.rule _ unlimited .unary _ (.right hcall)
  have hfactor := @Builds.rule _ unlimited .factor _ (.seq hunary .done)
  have hterm := @Builds.rule _ unlimited .term _ (.seq hfactor .done)
  have hcomparison := @Builds.rule _ unlimited .comparison _ (.seq hterm .done)
  have hequality := @Builds.rule _ unlimited .equality _ (.seq hcomparison .done)
  have hlogicAnd := @Builds.rule _ unlimited .logicAnd _ (.seq hequality .done)
  have hlogicOr := @Builds.rule _ unlimited .logicOr _ (.seq hlogicAnd .done)
  have hassignment := @Builds.rule _ unlimited .assignment _ (.right hlogicOr)
  exact @Builds.rule _ unlimited .expression _ hassignment

lemma builds_longCall {first : ParseTree Rule} (h : Builds unlimited (rule .expression) [first])
    (n : Nat) : Builds unlimited (rule .expression) [longCall first n] := by
  have hmore : Builds unlimited (many (symbol .comma ++ rule .expression)) (furtherNames n) := by
    induction n with
    | zero => exact .done
    | succ n ih => exact .again (.seq (.terminal rfl) (builds_named .done)) ih
  have harguments := @Builds.rule _ unlimited .arguments _ (.seq h hmore)
  have hopening : Token.isSymbol .leftParen ⟨.symbol .leftParen, "(", 1⟩ := rfl
  have hclosing : Token.isSymbol .rightParen ⟨.symbol .rightParen, ")", 1⟩ := rfl
  exact builds_named (.again (.left (.seq (.seq (.terminal hopening) (.present harguments))
    (.terminal hclosing))) .done)

lemma builds_oneStatement {e : ParseTree Rule} (h : Builds unlimited (rule .expression) [e]) :
    Builds unlimited (rule .program) [oneStatement e] := by
  have hsemicolon : Token.isSymbol .semicolon ⟨.symbol .semicolon, ";", 1⟩ := rfl
  have hexprStmt := @Builds.rule _ unlimited .exprStmt _ (.seq h (.terminal hsemicolon))
  have hstatement := @Builds.rule _ unlimited .statement _
    (.left (.left (.left (.left (.left (.left hexprStmt))))))
  have hdeclaration := @Builds.rule _ unlimited .declaration _ (.right hstatement)
  have hmark : decide ((⟨.eof, "", 1⟩ : Token).kind = .eof) := rfl
  exact @Builds.rule _ unlimited .program _ (.seq (.again hdeclaration .done) (.terminal hmark))

lemma overlongLists_oneStatement (e : ParseTree Rule) :
    (oneStatement e).overlongLists = e.overlongLists := by
  simp [oneStatement, overlongLists, isOverlong, listFault?]

lemma overlongLists_named (suffixes : List (ParseTree Rule)) :
    (named suffixes).overlongLists = (nodesAll suffixes).filter isOverlong := by
  simp [named, overlongLists, isOverlong, listFault?]

lemma entries_argumentList {first : ParseTree Rule} (hfirst : first.isComma = false) (n : Nat) :
    (argumentList first n).entries = first :: List.replicate n (named []) := by
  have hrest : (furtherNames n).filter (!·.isComma) = List.replicate n (named []) := by
    induction n with
    | zero => rfl
    | succ n ih => exact congrArg (named [] :: ·) ih
  simp [argumentList, entries, hfirst, hrest]

lemma length_entries_argumentList {first : ParseTree Rule} (hfirst : first.isComma = false)
    (n : Nat) : (argumentList first n).entries.length = n + 1 := by
  rw [entries_argumentList hfirst, List.length_cons, List.length_replicate]

/-- Of a call with `n + 1` arguments those past the limit are reported, all on the one line. -/
lemma surplus_argumentList {first : ParseTree Rule} (hfirst : first.isComma = false) (n : Nat) :
    (argumentList first n).surplus = List.replicate (n - 254) (.syntactic 1 .tooManyArguments) := by
  rw [surplus_of_fault rfl, entries_argumentList hfirst]
  rw [show Parser.maxEntries = 254 + 1 from rfl, List.drop_succ_cons, List.drop_replicate,
    List.map_replicate]
  rfl

lemma overlongLists_longCall {first : ParseTree Rule} (hfirst : first.isComma = false) {n : Nat}
    (hn : Parser.maxEntries ≤ n) :
    (longCall first n).overlongLists = first.overlongLists ++ [argumentList first n] := by
  have hnames : ∀ m, (nodesAll (furtherNames m)).filter isOverlong = [] := by
    intro m
    induction m with
    | zero => rfl
    | succ m ih =>
      have hname : (named []).overlongLists = [] := overlongLists_named []
      rw [overlongLists] at hname
      simp [furtherNames, hname, ih]
  have hlist : (argumentList first n).isOverlong := by
    refine isOverlong_iff.mpr ⟨⟨_, rfl⟩, ?_⟩
    rw [length_entries_argumentList hfirst]
    exact Nat.lt_succ_of_le hn
  have hnodes : (argumentList first n).nodes =
      first.nodes ++ nodesAll (furtherNames n) ++ [argumentList first n] := rfl
  rw [longCall, overlongLists_named]
  simp [hnodes, hnames, hlist, overlongLists]

lemma tokens_oneStatement (e : ParseTree Rule) : (oneStatement e).tokens =
    e.tokens ++ [⟨.symbol .semicolon, ";", 1⟩] ++ [⟨.eof, "", 1⟩] := by
  simp [oneStatement]

/-- The parse tree of `a(a, …, a);` with 257 arguments. -/
def crowdedCall : ParseTree Rule :=
  oneStatement (longCall (named []) 256)

/-- The parse tree of `a(a(a, …, a), a, …, a);` with 256 arguments in each call. -/
def nestedCalls : ParseTree Rule :=
  oneStatement (longCall (longCall (named []) 255) 255)

lemma overlongLists_crowdedCall :
    crowdedCall.overlongLists = [argumentList (named []) 256] := by
  rw [crowdedCall, overlongLists_oneStatement, overlongLists_longCall rfl (by decide),
    overlongLists_named]
  rfl

lemma overlongLists_nestedCalls : nestedCalls.overlongLists =
    [argumentList (named []) 255, argumentList (longCall (named []) 255) 255] := by
  rw [nestedCalls, overlongLists_oneStatement, overlongLists_longCall rfl (by decide),
    overlongLists_longCall rfl (by decide), overlongLists_named]
  rfl

end ParseTree

/-- Both calls have one argument too many, and each is reported once. -/
theorem parse_nestedCalls :
    Derives unlimited (rule .program) nestedCalls.tokens ∧
      nestedCalls.overlongLists.length = 2 ∧
      (parse nestedCalls.tokens 0).diagnostics =
        [.syntactic 1 .tooManyArguments, .syntactic 1 .tooManyArguments] ∧
      ReportsEachOnce (parse nestedCalls.tokens 0).diagnostics nestedCalls.overlongLists := by
  have hbuilds : Builds unlimited (rule .program) [nestedCalls] :=
    builds_oneStatement (builds_longCall (builds_longCall (builds_named .done) 255) 255)
  have hderives : Derives unlimited (rule .program) nestedCalls.tokens := by
    simpa using hbuilds.derives
  have htokens : nestedCalls.tokens = _ ++ [⟨.eof, "", 1⟩] := tokens_oneStatement _
  have hreports := parse_reports_surplus_entries (htokens ▸ hderives) (.inr htokens) 0
  obtain ⟨-, -, hperm, honce⟩ := hreports.2.2.2 nestedCalls hbuilds htokens
  have hlength : ∀ list ∈ nestedCalls.overlongLists, list.entries.length = 256 := by
    intro list hmem
    simp only [overlongLists_nestedCalls, List.mem_cons, List.not_mem_nil, or_false] at hmem
    rcases hmem with rfl | rfl
    · exact length_entries_argumentList rfl 255
    · exact length_entries_argumentList rfl 255
  refine ⟨hderives, by rw [overlongLists_nestedCalls]; rfl, ?_, honce.mpr hlength⟩
  rw [overlongLists_nestedCalls, List.flatMap_cons, List.flatMap_cons, surplus_argumentList rfl,
    surplus_argumentList rfl] at hperm
  exact (List.perm_replicate (n := 2)).mp hperm

/-- A call with two arguments too many is one list, and it is reported twice. -/
theorem crowdedCall_reported_twice :
    Derives unlimited (rule .program) crowdedCall.tokens ∧
      crowdedCall.overlongLists.length = 1 ∧
      (parse crowdedCall.tokens 0).diagnostics =
        [.syntactic 1 .tooManyArguments, .syntactic 1 .tooManyArguments] ∧
      ¬ ReportsEachOnce (parse crowdedCall.tokens 0).diagnostics crowdedCall.overlongLists := by
  have hbuilds : Builds unlimited (rule .program) [crowdedCall] :=
    builds_oneStatement (builds_longCall (builds_named .done) 256)
  have hderives : Derives unlimited (rule .program) crowdedCall.tokens := by
    simpa using hbuilds.derives
  have htokens : crowdedCall.tokens = _ ++ [⟨.eof, "", 1⟩] := tokens_oneStatement _
  obtain ⟨-, hperm⟩ := diagnostics_of_builds hbuilds htokens (.inr htokens) 0
  have honce := reportsEachOnce_iff (fun _ => isOverlong_of_mem) hperm
  rw [overlongLists_crowdedCall] at hperm honce ⊢
  refine ⟨hderives, rfl, ?_, fun hreports => ?_⟩
  · rw [List.flatMap_cons, surplus_argumentList rfl] at hperm
    exact (List.perm_replicate (n := 2)).mp hperm
  · have hlength := honce.mp hreports _ List.mem_cons_self
    rw [length_entries_argumentList rfl] at hlength
    cases hlength

end GermanLox
