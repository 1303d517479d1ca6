import GermanLox.Proofs.Source.Lexemes

/-!
# Tokens written out

The lexemes of a source, written one after another with single blanks between them, are cut as they
were: before a blank, or at the end, a lexeme of a token is the longest one. What was between two
tokens does not matter, not even whether there was anything.
-/

namespace GermanLox

namespace Lexeme

variable {kind : TokenKind} {text rest : List Char}

/-- What stands behind the lexeme of a token does not matter to it. -/
lemma behind (h : Lexeme (.token kind) text rest) (rest' : List Char) :
    Lexeme (.token kind) text rest' := by
  cases h with
  | symbol s => exact .symbol s
  | string hbody => exact .string hbody
  | whole hne hdigits hbits => exact .whole hne hdigits hbits
  | point hne hdigits hne' hplaces hbits => exact .point hne hdigits hne' hplaces hbits
  | keyword k => exact .keyword k
  | identifier hc hcs hname => exact .identifier hc hcs hname

/-- Only texts in quotes have blanks or quotes in them. -/
lemma exists_body (h : Lexeme (.token kind) text rest) {c : Char} (hc : c = ' ' ∨ c = '"')
    (hmem : c ∈ text) : ∃ body, '"' ∉ body ∧ text = '"' :: (body ++ ['"']) := by
  have hdigit : ¬ Digit c := by
    rw [digit_iff]
    rcases hc with rfl | rfl <;> decide
  have hletter : ¬ Letter c := by
    rw [letter_iff]
    rcases hc with rfl | rfl <;> decide
  have hpoint : c ≠ '.' := by rcases hc with rfl | rfl <;> decide
  cases h with
  | symbol s => rcases hc with rfl | rfl <;> cases s <;> simp [Symbol.spelling] at hmem
  | string hbody => exact ⟨_, hbody, rfl⟩
  | whole _ hdigits _ => exact absurd (hdigits _ hmem) hdigit
  | point _ hdigits _ hplaces _ =>
    simp only [List.mem_append, List.mem_cons, hpoint, false_or] at hmem
    rcases hmem with hmem | hmem
    · exact absurd (hdigits _ hmem) hdigit
    · exact absurd (hplaces _ hmem) hdigit
  | keyword k => rcases hc with rfl | rfl <;> cases k <;> simp [Keyword.spelling] at hmem
  | identifier hfirst hothers _ =>
    rcases List.mem_cons.mp hmem with rfl | hmem
    · exact absurd hfirst hletter
    · exact ((hothers _ hmem).elim hletter hdigit).elim

/-- The lexeme of a token does not start as a comment does. -/
lemma ne_slashes (h : Lexeme (.token kind) text rest) (body : List Char) :
    text ≠ '/' :: '/' :: body := by
  have hdigit : ¬ Digit '/' := fun h => absurd (digit_iff.mp h) (by decide)
  have hletter : ¬ Letter '/' := fun h => absurd (letter_iff.mp h) (by decide)
  rintro rfl
  generalize htext : '/' :: '/' :: body = text at h
  cases h with
  | symbol s => cases s <;> simp [Symbol.spelling] at htext
  | string => cases htext
  | whole _ hdigits _ => exact hdigit (hdigits _ (htext ▸ List.mem_cons_self ..))
  | @point digits _ _ _ hne hdigits _ _ _ =>
    obtain ⟨d, ds, rfl⟩ := List.exists_cons_of_ne_nil hne
    rw [List.cons_append, List.cons.injEq] at htext
    exact hdigit (hdigits _ (htext.1 ▸ List.mem_cons_self ..))
  | keyword k => cases k <;> simp [Keyword.spelling] at htext
  | identifier hc _ _ =>
    cases htext
    exact hletter hc

/-- No lexeme goes on with a blank after the lexeme of a token. -/
lemma not_before_blank (h : Lexeme (.token kind) text rest) {kind' : FragmentKind}
    {more rest' : List Char} (h' : Lexeme kind' (text ++ ' ' :: more) rest') : False := by
  obtain ⟨c, cs, rfl⟩ := List.exists_cons_of_ne_nil h.ne_nil
  cases kind' with
  | fault cause => exact Fragment.ne_fault_of_lexeme h' cause rfl
  | blank =>
    generalize htext : c :: cs ++ ' ' :: more = text' at h'
    cases h'
    simp at htext
  | comment =>
    generalize htext : c :: cs ++ ' ' :: more = text' at h'
    cases h' with
    | comment =>
      cases cs with
      | nil => simp at htext
      | cons d ds =>
        simp only [List.cons_append, List.cons.injEq] at htext
        obtain ⟨rfl, rfl, -⟩ := htext
        exact h.ne_slashes ds rfl
  | token kind' =>
    -- A text in quotes that goes on after its second quote.
    obtain ⟨body', hbody', htext'⟩ := h'.exists_body (.inl rfl) (by simp)
    simp only [List.cons_append, List.cons.injEq] at htext'
    obtain ⟨rfl, htext'⟩ := htext'
    obtain ⟨body, -, htext⟩ := h.exists_body (.inr rfl) (List.mem_cons_self ..)
    obtain rfl : cs = body ++ ['"'] := (List.cons.inj htext).2
    apply hbody'
    rw [List.append_assoc, List.singleton_append] at htext'
    have hinit := congrArg List.dropLast htext'
    rw [List.dropLast_concat] at hinit
    rw [← hinit, List.dropLast_append_of_ne_nil (List.cons_ne_nil _ _)]
    simp

/-- At the end and before a blank, the lexeme of a token is the longest one. -/
lemma longest (h : Lexeme (.token kind) text rest) (hrest : ∀ c ∈ rest.head?, c = ' ') :
    Longest (.token kind) text rest where
  lexeme := h
  length_le := by
    intro kind' text' rest' h' heq
    by_contra hlonger
    rcases List.append_eq_append_iff.mp heq with ⟨more, rfl, -⟩ | ⟨more, rfl, hmore⟩
    · simp at hlonger
    · -- The other lexeme goes on with the blank.
      cases more with
      | nil => simp at hlonger
      | cons c more =>
        obtain rfl : c = ' ' := hrest c (by simp [hmore])
        exact h.not_before_blank h'

end Lexeme

namespace Token

/-- A token apart from its line. -/
def piece (t : Token) : Piece :=
  .token t.kind t.lexeme

/-- The lexemes of tokens with single blanks between them. -/
def spaced (ts : List Token) : String :=
  " ".intercalate (ts.map Token.lexeme)

lemma toList_spaced_cons (t : Token) (ts : List Token) :
    (spaced (t :: ts)).toList = t.lexeme.toList ++ ts.flatMap fun u => ' ' :: u.lexeme.toList := by
  rw [spaced, String.toList_intercalate]
  induction ts generalizing t with
  | nil => simp
  | cons u ts ih =>
    have hrest := ih u
    simp only [List.map_cons] at hrest ⊢
    rw [List.intercalate_cons_cons, hrest]
    simp

end Token

/-- The tokens that the items of a clean text are. -/
lemma Item.map_token_filterMap {items : List Item} (h : items.filterMap Item.diagnostic? = []) :
    (items.filterMap Item.token?).map Item.token = items := by
  induction items with
  | nil => rfl
  | cons item items ih =>
    cases item with
    | token t =>
      have hrest : items.filterMap Item.diagnostic? = [] := by simpa [Item.diagnostic?] using h
      simp [Item.token?, ih hrest]
    | fault line cause => simp [Item.diagnostic?] at h

namespace Lexed

variable {cs : List Char} {tokens : List Token}

/-- Tokens that a text is lexed to are lexemes, up to the end. -/
lemma exists_lexemes (h : Lexed cs (tokens.map Token.piece)) :
    ∃ ts last, tokens = ts ++ [last] ∧ last.kind = .eof ∧ last.lexeme = "" ∧
      ∀ t ∈ ts, Lexeme (.token t.kind) t.lexeme.toList [] := by
  generalize hpieces : tokens.map Token.piece = pieces at h
  induction h generalizing tokens with
  | done =>
    obtain ⟨last, rfl, hlast⟩ := List.map_eq_singleton_iff.mp hpieces
    obtain ⟨hkind, hlexeme⟩ := Piece.token.inj hlast
    exact ⟨[], last, rfl, hkind, hlexeme, by simp⟩
  | skip _ _ _ ih => exact ih hpieces
  | token h _ ih =>
    obtain ⟨t, tokens, rfl, ht, hrest⟩ := List.map_eq_cons_iff.mp hpieces
    obtain ⟨ts, last, rfl, hlast⟩ := ih hrest
    obtain ⟨hkind, hlexeme⟩ := Piece.token.inj ht
    refine ⟨t :: ts, last, rfl, hlast.1, hlast.2.1, ?_⟩
    intro u hu
    rcases List.mem_cons.mp hu with rfl | hu
    · rw [hkind, hlexeme, String.toList_ofList]
      exact h.lexeme.behind []
    · exact hlast.2.2 u hu
  | unterminated =>
    obtain ⟨t, tokens, rfl, ht, -⟩ := List.map_eq_cons_iff.mp hpieces
    cases ht
  | unexpected =>
    obtain ⟨t, tokens, rfl, ht, -⟩ := List.map_eq_cons_iff.mp hpieces
    cases ht

/-- A blank is cut off. -/
lemma blank {pieces : List Piece} (h : Lexed cs pieces) : Lexed (' ' :: cs) pieces := by
  have hlongest : Longest .blank [' '] cs :=
    Fragment.longest_of_starting (.blank (by simp)) rfl (Fragment.starting_blank (by decide))
  exact .skip hlongest (.inl rfl) h

/-- A lexeme before a blank or the end is cut off. -/
lemma before_blank {t : Token} (ht : Lexeme (.token t.kind) t.lexeme.toList [])
    (hhead : ∀ c ∈ cs.head?, c = ' ') {pieces : List Piece} (h : Lexed cs pieces) :
    Lexed (t.lexeme.toList ++ cs) (t.piece :: pieces) := by
  have htoken := Lexed.token ((ht.behind cs).longest hhead) h
  rwa [String.ofList_toList] at htoken

/-- Lexemes with a blank before each are cut off one by one. -/
lemma after_blanks {ts : List Token} (hts : ∀ t ∈ ts, Lexeme (.token t.kind) t.lexeme.toList [])
    (hhead : ∀ c ∈ cs.head?, c = ' ') {pieces : List Piece} (h : Lexed cs pieces) :
    Lexed ((ts.flatMap fun t => ' ' :: t.lexeme.toList) ++ cs) (ts.map Token.piece ++ pieces) := by
  induction ts with
  | nil => exact h
  | cons t ts ih =>
    have hrest := ih fun u hu => hts u (List.mem_cons_of_mem _ hu)
    rw [List.flatMap_cons, List.cons_append, List.cons_append, List.append_assoc]
    refine blank (before_blank (hts t (List.mem_cons_self ..)) ?_ hrest)
    cases ts with
    | nil => exact hhead
    | cons u ts => simp

/-- Lexemes with single blanks between them are cut off one by one, and so they are with a blank
behind the last. -/
lemma of_spaced {ts : List Token} (hts : ∀ t ∈ ts, Lexeme (.token t.kind) t.lexeme.toList [])
    {last : Token} (hkind : last.kind = .eof) (hlexeme : last.lexeme = "") :
    Lexed (Token.spaced ts).toList ((ts ++ [last]).map Token.piece) ∧
      Lexed (Token.spaced (ts ++ [last])).toList ((ts ++ [last]).map Token.piece) := by
  have hlast : last.piece = .token .eof "" := by rw [Token.piece, hkind, hlexeme]
  have hend : Lexed [] [last.piece] := hlast ▸ .done
  rw [List.map_append, List.map_singleton]
  cases ts with
  | nil =>
    have hnone : (Token.spaced [last]).toList = [] := by simp [Token.spaced, hlexeme]
    rw [List.nil_append, hnone]
    exact ⟨hend, hend⟩
  | cons t ts =>
    have ht := hts t (List.mem_cons_self ..)
    have hothers : ∀ u ∈ ts, Lexeme (.token u.kind) u.lexeme.toList [] := fun u hu =>
      hts u (List.mem_cons_of_mem _ hu)
    have hhead : ∀ tail : List Char, (∀ c ∈ tail.head?, c = ' ') →
        ∀ c ∈ ((ts.flatMap fun u => ' ' :: u.lexeme.toList) ++ tail).head?, c = ' ' := by
      intro tail htail
      cases ts with
      | nil => exact htail
      | cons u ts => simp
    rw [List.cons_append, Token.toList_spaced_cons, Token.toList_spaced_cons, List.flatMap_append,
      List.map_cons, List.cons_append]
    constructor
    · have hrest := after_blanks hothers (by simp) hend
      have htext := before_blank ht (hhead [] (by simp)) hrest
      rwa [List.append_nil] at htext
    · have hrest := after_blanks hothers (by simp) (blank hend)
      have htext := before_blank ht (hhead [' '] (by simp)) hrest
      simpa [hlexeme] using htext

end Lexed

/-- Items that are tokens, apart from their lines, are tokens without a fault among them. -/
lemma Item.tokens_of_pieces {items : List Item} {tokens : List Token}
    (h : items.map Item.piece = tokens.map Token.piece) :
    items.filterMap Item.diagnostic? = [] ∧
      (items.filterMap Item.token?).map (fun t => (t.kind, t.lexeme)) =
        tokens.map fun t => (t.kind, t.lexeme) := by
  induction items generalizing tokens with
  | nil =>
    obtain rfl : tokens = [] := List.map_eq_nil_iff.mp h.symm
    exact ⟨rfl, rfl⟩
  | cons item items ih =>
    obtain ⟨t, tokens, rfl, ht, hrest⟩ := List.map_eq_cons_iff.mp h.symm
    obtain ⟨hfaults, htokens⟩ := ih hrest.symm
    cases item with
    | fault line cause => cases ht
    | token u =>
      obtain ⟨hkind, hlexeme⟩ := Piece.token.inj ht
      constructor
      · exact (List.filterMap_cons_none rfl).trans hfaults
      · have hfirst : (Item.token u).token? = some u := rfl
        rw [List.filterMap_cons_some hfirst, List.map_cons, List.map_cons, htokens, hkind, hlexeme]

/-- The tokens of a source without faults, written out with single blanks between them, are scanned
to the same tokens again: kinds with all they carry, and lexemes. A blank behind the last of them,
before the empty lexeme of the end, makes no difference. -/
theorem scan_spaced_tokens {source : String} (h : (scan source).filterMap Item.diagnostic? = [])
    {text : String}
    (htext : text = Token.spaced ((scan source).filterMap Item.token?).dropLast ∨
      text = Token.spaced ((scan source).filterMap Item.token?)) :
    (scan text).filterMap Item.diagnostic? = [] ∧
      ((scan text).filterMap Item.token?).map (fun t => (t.kind, t.lexeme)) =
        ((scan source).filterMap Item.token?).map fun t => (t.kind, t.lexeme) := by
  have hitems := Item.map_token_filterMap h
  have hlexed := lexed_place source.toList 1
  rw [← scan, ← hitems, List.map_map] at hlexed
  generalize (scan source).filterMap Item.token? = tokens at *
  obtain ⟨ts, last, rfl, hkind, hlexeme, hts⟩ := Lexed.exists_lexemes hlexed
  obtain ⟨hbare, hclosed⟩ := Lexed.of_spaced hts hkind hlexeme
  rw [List.dropLast_concat] at htext
  apply Item.tokens_of_pieces
  rcases htext with rfl | rfl
  · exact hbare.pieces_eq 1
  · exact hclosed.pieces_eq 1

/-- A text in quotes over two lines that reads like a comment, a number before a point, and symbols
without a blank between them. -/
private def crowded : String :=
  "größe\"//ü\n\"1.5.x!==/ 2"

theorem scan_spaced_crowded :
    (scan crowded).filterMap Item.diagnostic? = [] ∧
      Token.spaced ((scan crowded).filterMap Item.token?).dropLast =
        "größe \"//ü\n\" 1.5 . x != = / 2" ∧
      ((scan "größe \"//ü\n\" 1.5 . x != = / 2").filterMap Item.token?).map
          (fun t => (t.kind, t.lexeme)) =
        ((scan crowded).filterMap Item.token?).map fun t => (t.kind, t.lexeme) := by
  have hclean : (scan crowded).filterMap Item.diagnostic? = [] := by decide +kernel
  have htext : "größe \"//ü\n\" 1.5 . x != = / 2" =
      Token.spaced ((scan crowded).filterMap Item.token?).dropLast := by decide +kernel
  exact ⟨hclean, htext.symm, (scan_spaced_tokens hclean (.inl htext)).2⟩

end GermanLox
