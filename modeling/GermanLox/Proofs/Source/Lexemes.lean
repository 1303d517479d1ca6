import GermanLox.Diagnostic
import GermanLox.Proofs.Number.Rounding
import GermanLox.Proofs.Source.Cutting
import GermanLox.Source.Scan

/-!
# The lexical grammar

The lexemes of the language are described apart from the way a text is cut. At each place the
fragment that is cut off is the longest lexeme there; where none starts, it is a fault. So the
pieces of a text are the only ones that the grammar and the rule of the longest lexeme allow.
-/

namespace GermanLox

def Letter (c : Char) : Prop :=
  'a' ≤ c ∧ c ≤ 'z' ∨ 'A' ≤ c ∧ c ≤ 'Z' ∨ c = '_' ∨ c ∈ ['ä', 'ö', 'ü', 'Ä', 'Ö', 'Ü', 'ß']

def Digit (c : Char) : Prop :=
  '0' ≤ c ∧ c ≤ '9'

/-- The lexemes of each kind. What stands behind one matters to a comment only, which ends where
the line does. -/
inductive Lexeme : FragmentKind → List Char → List Char → Prop
  | blank {c rest} (h : c ∈ [' ', '\t', '\r', '\n']) : Lexeme .blank [c] rest
  | comment {body rest} (hbody : '\n' ∉ body) (hrest : rest = [] ∨ rest.head? = some '\n') :
    Lexeme .comment ('/' :: '/' :: body) rest
  | symbol (s : Symbol) {rest} : Lexeme (.token (.symbol s)) s.spelling.toList rest
  | string {body rest} (hbody : '"' ∉ body) :
    Lexeme (.token (.string (String.ofList body))) ('"' :: (body ++ ['"'])) rest
  | whole {digits bits rest} (hne : digits ≠ []) (hdigits : ∀ c ∈ digits, Digit c)
    (hbits : Binary64.Rounds (Number.decimal digits []) bits) :
    Lexeme (.token (.number (Binary64.ofBits bits))) digits rest
  | point {digits places bits rest} (hne : digits ≠ []) (hdigits : ∀ c ∈ digits, Digit c)
    (hne' : places ≠ []) (hplaces : ∀ c ∈ places, Digit c)
    (hbits : Binary64.Rounds (Number.decimal digits places) bits) :
    Lexeme (.token (.number (Binary64.ofBits bits))) (digits ++ '.' :: places) rest
  | keyword (k : Keyword) {rest} : Lexeme (.token (.keyword k)) k.spelling.toList rest
  | identifier {c cs rest} (hc : Letter c) (hcs : ∀ d ∈ cs, Letter d ∨ Digit d)
    (hname : ∀ k : Keyword, k.spelling.toList ≠ c :: cs) :
    Lexeme (.token .identifier) (c :: cs) rest

/-- A lexeme than which no other one at its place is longer. -/
structure Longest (kind : FragmentKind) (text rest : List Char) : Prop where
  lexeme : Lexeme kind text rest
  length_le : ∀ ⦃kind' text' rest'⦄, Lexeme kind' text' rest' → text' ++ rest' = text ++ rest →
    text'.length ≤ text.length

/-- No lexeme starts a text. -/
def Stuck (cs : List Char) : Prop :=
  ∀ ⦃kind text rest⦄, Lexeme kind text rest → text ++ rest ≠ cs

section Characters

variable {c : Char}

lemma letter_iff : Letter c ↔ isLetter c = true := by
  simp only [Letter, isLetter, isAlpha_iff, Bool.or_eq_true, decide_eq_true_eq, Char.le_def]
  constructor
  · rintro (h | h | h | h)
    · exact .inl (.inl (.inr h))
    · exact .inl (.inl (.inl h))
    · exact .inl (.inr h)
    · exact .inr h
  · rintro (((h | h) | h) | h)
    · exact .inr (.inl h)
    · exact .inl h
    · exact .inr (.inr (.inl h))
    · exact .inr (.inr (.inr h))

lemma digit_iff : Digit c ↔ c.isDigit = true := by
  simp only [Digit, Char.isDigit, Bool.and_eq_true, decide_eq_true_eq, Char.le_def, ge_iff_le]

lemma wordCharacter_iff : Letter c ∨ Digit c ↔ isWordCharacter c = true := by
  rw [letter_iff, digit_iff, isWordCharacter, Bool.or_eq_true]

lemma mem_blanks_iff : c ∈ [' ', '\t', '\r', '\n'] ↔ isBlank c = true := by
  simp [isBlank, or_assoc]

lemma isBlank_of_isDigit (h : c.isDigit = true) : isBlank c = false := by
  by_contra hblank
  simp only [isBlank, Bool.not_eq_false, Bool.or_eq_true, decide_eq_true_eq] at hblank
  rcases hblank with ((rfl | rfl) | rfl) | rfl <;> revert h <;> decide

lemma ne_of_isDigit {d : Char} (h : c.isDigit = true) (hd : d.isDigit = false) : c ≠ d := by
  rintro rfl
  rw [h] at hd
  cases hd

end Characters

section Spellings

lemma Symbol.length_spelling (s : Symbol) :
    s.spelling.toList.length = 1 ∨ s.spelling.toList.length = 2 := by
  cases s <;> decide

/-- A symbol starts with what starts no other lexeme than a comment. -/
lemma Symbol.head_spelling (s : Symbol) : ∀ c ∈ s.spelling.toList.head?,
    isBlank c = false ∧ c ≠ '"' ∧ c.isDigit = false ∧ isLetter c = false := by
  intro c hc
  cases s <;> (obtain rfl := Option.some.inj hc; decide)

/-- A symbol of two characters is no start of a comment. -/
lemma Symbol.ne_slashes (s : Symbol) : s.spelling.toList ≠ ['/', '/'] := by
  cases s <;> decide

/-- A reserved word is a word. -/
lemma Keyword.isWord_spelling (k : Keyword) : ∃ c cs, k.spelling.toList = c :: cs ∧
    isLetter c = true ∧ ∀ d ∈ cs, isWordCharacter d = true := by
  cases k <;> exact ⟨_, _, rfl, by decide, List.all_eq_true.mp (by decide)⟩

end Spellings

namespace Fragment

variable {c : Char} {cs rest text : List Char} {kind : FragmentKind}

section Branches

lemma starting_blank (h : isBlank c = true) : starting c cs = ⟨.blank, [c]⟩ := by
  rw [starting, if_pos h]

lemma starting_quote : starting '"' cs = quoted cs := by
  rw [starting, if_neg (by decide), if_pos rfl]

lemma starting_digit (h : c.isDigit = true) : starting c cs = numeral (c :: cs) := by
  rw [starting, if_neg (by simp [isBlank_of_isDigit h]), if_neg (ne_of_isDigit h (by decide)),
    if_pos h]

lemma starting_letter (h : isLetter c = true) : starting c cs =
    ⟨.token (wordKind (c :: cs.takeWhile isWordCharacter)), c :: cs.takeWhile isWordCharacter⟩ := by
  rw [starting, if_neg (by simp [isBlank_of_isLetter h]), if_neg (ne_quote_of_isLetter h),
    if_neg (by simp [isDigit_of_isLetter h]), if_pos h]

lemma starting_slashes :
    starting '/' ('/' :: cs) = ⟨.comment, '/' :: '/' :: cs.takeWhile (· ≠ '\n')⟩ := by
  rw [starting, if_neg (by decide), if_neg (by decide), if_neg (by decide), if_neg (by decide),
    if_pos ⟨rfl, rfl⟩, List.takeWhile_cons, if_pos (by decide)]

lemma starting_other (hblank : isBlank c = false) (hquote : c ≠ '"') (hdigit : c.isDigit = false)
    (hletter : isLetter c = false) (hcomment : ¬ (c = '/' ∧ cs.head? = some '/')) :
    starting c cs = symbolic c cs := by
  rw [starting, if_neg (by simp [hblank]), if_neg hquote, if_neg (by simp [hdigit]),
    if_neg (by simp [hletter]), if_neg hcomment]

end Branches

section Sound

/-- A text that is closed is a lexeme. -/
lemma quoted_lexeme : Lexeme (quoted cs).kind (quoted cs).text rest ∨
    quoted cs = ⟨.fault .unterminatedString, '"' :: cs⟩ := by
  cases hdrop : cs.dropWhile (· ≠ '"') with
  | nil => exact .inr (by simp only [quoted, hdrop])
  | cons quote after =>
    left
    have hquote : quote = '"' := by
      have hhead := List.head?_dropWhile_not (fun c => decide (c ≠ '"')) cs
      rw [hdrop] at hhead
      simpa using hhead
    have hquoted : quoted cs = ⟨.token (.string (String.ofList (cs.takeWhile (· ≠ '"')))),
        '"' :: (cs.takeWhile (· ≠ '"') ++ ['"'])⟩ := by
      simp only [quoted, hdrop, hquote, List.cons_append]
    rw [hquoted]
    refine .string fun hmem => ?_
    simpa using List.mem_takeWhile_imp hmem

lemma numeral_lexeme (hc : c.isDigit = true) :
    Lexeme (numeral (c :: cs)).kind (numeral (c :: cs)).text rest := by
  have hdigits : ∀ d ∈ (c :: cs).takeWhile Char.isDigit, d.isDigit = true :=
    fun d hd => List.mem_takeWhile_imp hd
  have hne : (c :: cs).takeWhile Char.isDigit ≠ [] := by simp [hc]
  simp only [numeral]
  generalize (c :: cs).takeWhile Char.isDigit = digits at hdigits hne
  have hpoint : '.' ∉ digits := fun hmem => absurd (hdigits _ hmem) (by decide)
  rcases places_cases ((c :: cs).dropWhile Char.isDigit) with hnone | ⟨d, ds, -, hd, hsome⟩
  · rw [hnone, List.append_nil]
    obtain ⟨bits, hvalue, hbits⟩ := Number.ofLexeme_whole hpoint
    rw [hvalue]
    exact .whole hne (fun d hd => digit_iff.mpr (hdigits d hd)) hbits
  · rw [hsome]
    obtain ⟨bits, hvalue, hbits⟩ :=
      Number.ofLexeme_point (d :: ds.takeWhile Char.isDigit) hpoint
    rw [hvalue]
    refine .point hne (fun d hd => digit_iff.mpr (hdigits d hd)) (List.cons_ne_nil _ _) ?_ hbits
    intro e he
    rcases List.mem_cons.mp he with rfl | he
    · exact digit_iff.mpr hd
    · exact digit_iff.mpr (List.mem_takeWhile_imp he)

lemma word_lexeme (hc : isLetter c = true) (hcs : ∀ d ∈ cs, isWordCharacter d = true) :
    Lexeme (.token (wordKind (c :: cs))) (c :: cs) rest := by
  unfold wordKind
  cases hword : Keyword.ofSpelling? (String.ofList (c :: cs)) with
  | some k =>
    have hspelling := congrArg String.toList (Keyword.ofSpelling?_eq_some_iff.mp hword)
    rw [String.toList_ofList] at hspelling
    rw [← hspelling]
    exact .keyword k
  | none =>
    refine .identifier (letter_iff.mpr hc) (fun d hd => wordCharacter_iff.mpr (hcs d hd)) ?_
    intro k hk
    have hsome : Keyword.ofSpelling? (String.ofList (c :: cs)) = some k :=
      Keyword.ofSpelling?_eq_some_iff.mpr (by rw [← hk, String.ofList_toList])
    rw [hword] at hsome
    cases hsome

lemma symbolic_lexeme : Lexeme (symbolic c cs).kind (symbolic c cs).text rest ∨
    symbolic c cs = ⟨.fault .unexpectedCharacter, [c]⟩ := by
  have hsymbol : ∀ {text : List Char} {s : Symbol},
      Symbol.ofSpelling? (String.ofList text) = some s → Lexeme (.token (.symbol s)) text rest := by
    intro text s hs
    have hspelling := congrArg String.toList (Symbol.ofSpelling?_eq_some_iff.mp hs)
    rw [String.toList_ofList] at hspelling
    rw [← hspelling]
    exact .symbol s
  unfold symbolic
  split
  · rename_i s hs
    obtain ⟨d, hd, hs⟩ := Option.bind_eq_some_iff.mp hs
    obtain ⟨ds, rfl⟩ := List.head?_eq_some_iff.mp hd
    exact .inl (hsymbol hs)
  · split
    · exact .inl (hsymbol ‹_›)
    · exact .inr rfl

/-- What is cut off is a lexeme, or a fault. -/
lemma starting_lexeme (h : (starting c cs).text ++ rest = c :: cs) :
    Lexeme (starting c cs).kind (starting c cs).text rest ∨
      c = '"' ∧ starting c cs = ⟨.fault .unterminatedString, c :: cs⟩ ∨
      c ≠ '"' ∧ starting c cs = ⟨.fault .unexpectedCharacter, [c]⟩ := by
  by_cases hblank : isBlank c = true
  · rw [starting_blank hblank]
    exact .inl (.blank (mem_blanks_iff.mpr hblank))
  by_cases hquote : c = '"'
  · subst hquote
    rw [starting_quote]
    exact quoted_lexeme.imp_right fun hfault => .inl ⟨rfl, hfault⟩
  by_cases hdigit : c.isDigit = true
  · rw [starting_digit hdigit]
    exact .inl (numeral_lexeme hdigit)
  by_cases hletter : isLetter c = true
  · rw [starting_letter hletter]
    exact .inl (word_lexeme hletter fun d hd => List.mem_takeWhile_imp hd)
  by_cases hcomment : c = '/' ∧ cs.head? = some '/'
  · obtain ⟨rfl, hhead⟩ := hcomment
    obtain ⟨cs, rfl⟩ := List.head?_eq_some_iff.mp hhead
    rw [starting_slashes] at h ⊢
    have hrest : rest = cs.dropWhile (· ≠ '\n') := by
      have hsplit := List.takeWhile_append_dropWhile (p := fun c => decide (c ≠ '\n')) (l := cs)
      simp only [List.cons_append, List.cons.injEq, true_and] at h
      exact List.append_cancel_left (h.trans hsplit.symm)
    refine .inl (.comment (fun hmem => by simpa using List.mem_takeWhile_imp hmem) ?_)
    subst hrest
    cases hdrop : cs.dropWhile (· ≠ '\n') with
    | nil => exact .inl rfl
    | cons d ds =>
      have hhead := List.head?_dropWhile_not (fun c => decide (c ≠ '\n')) cs
      rw [hdrop] at hhead
      exact .inr (by simpa using hhead)
  · simp only [Bool.not_eq_true] at hblank hdigit hletter
    rw [starting_other hblank hquote hdigit hletter hcomment]
    exact symbolic_lexeme.imp_right fun hfault => .inr ⟨hquote, hfault⟩

end Sound

section Complete

/-- A lexeme is what is cut off where it starts, or what is cut off is longer. -/
def Reaches (c : Char) (cs : List Char) (kind : FragmentKind) (text : List Char) : Prop :=
  starting c cs = ⟨kind, text⟩ ∨
    text.length < (starting c cs).text.length ∧ ∀ cause, (starting c cs).kind ≠ .fault cause

lemma reaches_word (hc : isLetter c = true) (hcs : ∀ d ∈ cs, isWordCharacter d = true) :
    Reaches c (cs ++ rest) (.token (wordKind (c :: cs))) (c :: cs) := by
  unfold Reaches
  rw [starting_letter hc, List.takeWhile_append_of_pos hcs]
  cases hmore : rest.takeWhile isWordCharacter with
  | nil => exact .inl (by rw [List.append_nil])
  | cons d ds =>
    refine .inr ⟨?_, fun cause => by simp⟩
    simp only [List.length_cons, List.length_append]
    omega

lemma numeral_text_whole {digits : List Char} (hdigits : ∀ d ∈ digits, d.isDigit = true) :
    ∃ more, (numeral (digits ++ rest)).text = digits ++ more := by
  simp only [numeral, List.takeWhile_append_of_pos hdigits, List.append_assoc]
  exact ⟨_, rfl⟩

lemma numeral_text_point {digits ds : List Char} (hdigits : ∀ d ∈ digits, d.isDigit = true)
    (hne : ds ≠ []) (hds : ∀ d ∈ ds, d.isDigit = true) :
    ∃ more, (numeral (digits ++ '.' :: ds ++ rest)).text = digits ++ '.' :: ds ++ more := by
  obtain ⟨d, ds, rfl⟩ := List.exists_cons_of_ne_nil hne
  have hpoint : Ends Char.isDigit ('.' :: d :: (ds ++ rest)) := by
    rintro _ ⟨⟩
    decide
  have hplaces : places ('.' :: d :: (ds ++ rest)) =
      '.' :: d :: (ds ++ rest.takeWhile Char.isDigit) := by
    simp only [places, hds d (List.mem_cons_self ..), if_true,
      List.takeWhile_append_of_pos fun e he => hds e (List.mem_cons_of_mem _ he)]
  refine ⟨rest.takeWhile Char.isDigit, ?_⟩
  simp only [List.append_assoc, List.cons_append]
  simp only [numeral, takeWhile_append_eq_iff.mpr ⟨hdigits, hpoint⟩,
    List.dropWhile_append_of_pos hdigits, dropWhile_of_ends hpoint, hplaces]

lemma reaches_number {bits : Nat} {more : List Char} (hc : c.isDigit = true)
    (htext : (numeral (c :: cs)).text = text ++ more)
    (hvalue : Number.ofLexeme text = Binary64.ofBits bits) :
    Reaches c cs (.token (.number (Binary64.ofBits bits))) text := by
  have hnumeral : numeral (c :: cs) =
      ⟨.token (.number (Number.ofLexeme (numeral (c :: cs)).text)), (numeral (c :: cs)).text⟩ := by
    simp only [numeral]
  unfold Reaches
  rw [starting_digit hc, hnumeral, htext]
  cases more with
  | nil => exact .inl (by rw [List.append_nil, hvalue])
  | cons d ds =>
    refine .inr ⟨?_, fun cause => by simp⟩
    simp only [List.length_append, List.length_cons]
    omega

lemma reaches_symbol {s : Symbol} (h : s.spelling.toList ++ rest = c :: cs) :
    Reaches c cs (.token (.symbol s)) s.spelling.toList := by
  have hspelling : Symbol.ofSpelling? (String.ofList s.spelling.toList) = some s :=
    Symbol.ofSpelling?_eq_some_iff.mpr (String.ofList_toList).symm
  have hhead := s.head_spelling
  have hslashes := s.ne_slashes
  have hlength := s.length_spelling
  generalize s.spelling.toList = text at *
  unfold Reaches
  rcases hlength with hlength | hlength
  · obtain ⟨c, rfl⟩ := List.length_eq_one_iff.mp hlength
    obtain ⟨rfl, rfl⟩ := List.cons.inj (List.singleton_append.symm.trans h)
    obtain ⟨hblank, hquote, hdigit, hletter⟩ := hhead _ rfl
    by_cases hcomment : c = '/' ∧ rest.head? = some '/'
    · -- Two slashes are more than one.
      obtain ⟨rfl, hslash⟩ := hcomment
      obtain ⟨rest, rfl⟩ := List.head?_eq_some_iff.mp hslash
      rw [starting_slashes]
      exact .inr ⟨by simp, fun cause => by simp⟩
    · rw [starting_other hblank hquote hdigit hletter hcomment]
      unfold symbolic
      split
      · rename_i s' hs'
        obtain ⟨d, hd, -⟩ := Option.bind_eq_some_iff.mp hs'
        obtain ⟨rest, rfl⟩ := List.head?_eq_some_iff.mp hd
        exact .inr ⟨by simp, fun cause => by simp⟩
      · rw [hspelling]
        exact .inl rfl
  · obtain ⟨c, d, rfl⟩ := List.length_eq_two.mp hlength
    rw [List.cons_append, List.singleton_append, List.cons.injEq] at h
    obtain ⟨rfl, rfl⟩ := h
    obtain ⟨hblank, hquote, hdigit, hletter⟩ := hhead c rfl
    have hcomment : ¬ (c = '/' ∧ (d :: rest).head? = some '/') := by
      rintro ⟨rfl, hslash⟩
      cases hslash
      exact hslashes rfl
    rw [starting_other hblank hquote hdigit hletter hcomment]
    left
    simp only [symbolic, List.head?_cons, Option.bind_some, hspelling, List.take_succ_cons,
      List.take_zero]

lemma reaches_string {body : List Char} (hbody : '"' ∉ body) :
    Reaches '"' (body ++ '"' :: rest) (.token (.string (String.ofList body)))
      ('"' :: (body ++ ['"'])) := by
  have hne : ∀ d ∈ body, decide (d ≠ '"') = true := fun d hd =>
    decide_eq_true (ne_of_mem_of_not_mem hd hbody)
  have hends : Ends (fun d => decide (d ≠ '"')) ('"' :: rest) := by
    rintro _ ⟨⟩
    decide
  left
  rw [starting_quote]
  simp only [quoted, takeWhile_append_eq_iff.mpr ⟨hne, hends⟩,
    List.dropWhile_append_of_pos hne, dropWhile_of_ends hends, List.cons_append]

lemma reaches_comment {body : List Char} (hbody : '\n' ∉ body)
    (hrest : rest = [] ∨ rest.head? = some '\n') :
    Reaches '/' ('/' :: (body ++ rest)) .comment ('/' :: '/' :: body) := by
  have hne : ∀ d ∈ body, decide (d ≠ '\n') = true := fun d hd =>
    decide_eq_true (ne_of_mem_of_not_mem hd hbody)
  have hends : Ends (fun d => decide (d ≠ '\n')) rest := by
    intro d hd
    rcases hrest with rfl | hrest
    · cases hd
    · obtain rfl : '\n' = d := Option.some.inj (hrest.symm.trans hd)
      decide
  left
  rw [starting_slashes, takeWhile_append_eq_iff.mpr ⟨hne, hends⟩]

/-- A lexeme at the head of a text is what is cut off there, or that is longer. -/
lemma reaches_of_lexeme (h : Lexeme kind text rest) (htext : text ++ rest = c :: cs) :
    Reaches c cs kind text := by
  have hdigit : ∀ {digits tail : List Char}, digits ≠ [] → (∀ d ∈ digits, Digit d) →
      digits ++ tail = c :: cs → c.isDigit = true := by
    intro digits tail hne hdigits heq
    obtain ⟨d, ds, rfl⟩ := List.exists_cons_of_ne_nil hne
    cases heq
    exact digit_iff.mp (hdigits _ (List.mem_cons_self ..))
  cases h with
  | blank h =>
    cases htext
    exact .inl (starting_blank (mem_blanks_iff.mp h))
  | comment hbody hrest =>
    cases htext
    exact reaches_comment hbody hrest
  | symbol s => exact reaches_symbol htext
  | string hbody =>
    rw [List.cons_append, List.append_assoc] at htext
    cases htext
    exact reaches_string hbody
  | whole hne hdigits hbits =>
    have hdigits' := fun d hd => digit_iff.mp (hdigits d hd)
    have hpoint : '.' ∉ text := fun hmem => absurd (hdigits' _ hmem) (by decide)
    obtain ⟨more, hmore⟩ := @numeral_text_whole rest text hdigits'
    obtain ⟨bits', hvalue, hbits'⟩ := Number.ofLexeme_whole hpoint
    rw [htext] at hmore
    rw [Number.decimal_eq] at hbits hbits'
    rw [hbits.unique Nat.one_pos hbits']
    exact reaches_number (hdigit hne hdigits htext) hmore hvalue
  | @point digits places bits rest hne hdigits hne' hplaces hbits =>
    have hdigits' := fun d hd => digit_iff.mp (hdigits d hd)
    have hplaces' := fun d hd => digit_iff.mp (hplaces d hd)
    have hpoint : '.' ∉ digits := fun hmem => absurd (hdigits' _ hmem) (by decide)
    obtain ⟨more, hmore⟩ := @numeral_text_point rest digits places hdigits' hne' hplaces'
    obtain ⟨bits', hvalue, hbits'⟩ := Number.ofLexeme_point places hpoint
    rw [htext] at hmore
    rw [Number.decimal_eq] at hbits hbits'
    rw [hbits.unique (Nat.pow_pos (by decide)) hbits']
    rw [List.append_assoc] at htext
    exact reaches_number (hdigit hne hdigits htext) hmore hvalue
  | keyword k =>
    obtain ⟨d, ds, hspelling, hd, hds⟩ := k.isWord_spelling
    have hkind : wordKind (d :: ds) = .keyword k := by
      rw [wordKind, ← hspelling, String.ofList_toList,
        Keyword.ofSpelling?_eq_some_iff.mpr (rfl : k.spelling = k.spelling)]
    rw [hspelling] at htext ⊢
    cases htext
    exact hkind ▸ reaches_word hd hds
  | @identifier d ds rest hd hds hname =>
    have hkind : wordKind (d :: ds) = .identifier := by
      unfold wordKind
      cases hword : Keyword.ofSpelling? (String.ofList (d :: ds)) with
      | none => rfl
      | some k =>
        refine absurd ?_ (hname k)
        rw [Keyword.ofSpelling?_eq_some_iff.mp hword, String.toList_ofList]
    cases htext
    exact hkind ▸ reaches_word (letter_iff.mp hd) fun e he => wordCharacter_iff.mp (hds e he)

end Complete

lemma ne_fault_of_lexeme (h : Lexeme kind text rest) (cause : LexicalFault) :
    kind ≠ .fault cause := by
  cases h <;> simp

/-- The longest lexeme at the head of a text is what is cut off there. -/
lemma starting_of_longest (h : Longest kind text rest) (htext : text ++ rest = c :: cs) :
    starting c cs = ⟨kind, text⟩ := by
  rcases reaches_of_lexeme h.lexeme htext with hstarting | ⟨hlonger, hkind⟩
  · exact hstarting
  exfalso
  obtain ⟨rest', hrest'⟩ := starting_isPrefix c cs
  rcases starting_lexeme hrest' with hlexeme | ⟨-, hfault⟩ | ⟨-, hfault⟩
  · have := h.length_le hlexeme (hrest'.trans htext.symm)
    omega
  · exact hkind _ (congrArg Fragment.kind hfault)
  · exact hkind _ (congrArg Fragment.kind hfault)

lemma longest_of_starting (h : Lexeme kind text rest) (htext : text ++ rest = c :: cs)
    (hstarting : starting c cs = ⟨kind, text⟩) : Longest kind text rest where
  lexeme := h
  length_le := by
    intro kind' text' rest' h' htext'
    rcases reaches_of_lexeme h' (htext'.trans htext) with hsame | ⟨hlonger, -⟩
    · rw [hstarting, Fragment.mk.injEq] at hsame
      rw [hsame.2]
    · rw [hstarting] at hlonger
      exact Nat.le_of_lt hlonger

lemma stuck_of_starting {cause : LexicalFault} (h : (starting c cs).kind = .fault cause) :
    Stuck (c :: cs) := by
  intro kind text rest hlexeme htext
  rcases reaches_of_lexeme hlexeme htext with hstarting | ⟨-, hkind⟩
  · rw [hstarting] at h
    exact ne_fault_of_lexeme hlexeme cause h
  · exact hkind cause h

/-- Where no lexeme starts, a quote takes all the rest with it and another character itself. -/
lemma starting_of_stuck (h : Stuck (c :: cs)) :
    c = '"' ∧ starting c cs = ⟨.fault .unterminatedString, c :: cs⟩ ∨
      c ≠ '"' ∧ starting c cs = ⟨.fault .unexpectedCharacter, [c]⟩ := by
  obtain ⟨rest, hrest⟩ := starting_isPrefix c cs
  exact (starting_lexeme hrest).resolve_left fun hlexeme => h hlexeme hrest

lemma split_of_starting (h : starting c cs = ⟨kind, text⟩) (htext : text ++ rest = c :: cs) :
    split (c :: cs) = ⟨kind, text⟩ :: split rest := by
  rw [split_cons, h, ← htext, List.drop_left]

end Fragment

/-- An item apart from its line. -/
inductive Piece where
  | token (kind : TokenKind) (lexeme : String)
  | fault (message : String)

def Item.piece : Item → Piece
  | .token t => .token t.kind t.lexeme
  | .fault _ cause => .fault cause.message

/-- The pieces of a text: at each place the longest lexeme, and a fault where there is none. -/
inductive Lexed : List Char → List Piece → Prop
  | done : Lexed [] [.token .eof ""]
  | skip {kind text rest pieces} (h : Longest kind text rest)
    (hkind : kind = .blank ∨ kind = .comment) (hrest : Lexed rest pieces) :
    Lexed (text ++ rest) pieces
  | token {kind text rest pieces} (h : Longest (.token kind) text rest)
    (hrest : Lexed rest pieces) :
    Lexed (text ++ rest) (.token kind (String.ofList text) :: pieces)
  | unterminated {cs} (h : Stuck ('"' :: cs)) :
    Lexed ('"' :: cs) [.fault "Unbeendete Zeichenkette.", .token .eof ""]
  | unexpected {c cs pieces} (hc : c ≠ '"') (h : Stuck (c :: cs)) (hrest : Lexed cs pieces) :
    Lexed (c :: cs) (.fault "Unerwartetes Zeichen." :: pieces)

open Fragment

lemma Lexeme.ne_nil {kind : FragmentKind} {text rest : List Char} (h : Lexeme kind text rest) :
    text ≠ [] := by
  cases h with
  | blank => exact List.cons_ne_nil _ _
  | comment => exact List.cons_ne_nil _ _
  | symbol s => cases s <;> decide
  | string => exact List.cons_ne_nil _ _
  | whole hne => exact hne
  | point hne => exact List.append_ne_nil_of_left_ne_nil hne _
  | keyword k => cases k <;> decide
  | identifier => exact List.cons_ne_nil _ _

lemma Lexeme.kind_ne_eof {kind : TokenKind} {text rest : List Char}
    (h : Lexeme (.token kind) text rest) : kind ≠ .eof := by
  cases h <;> simp

lemma split_of_longest {text rest : List Char} {kind : FragmentKind} (h : Longest kind text rest) :
    split (text ++ rest) = ⟨kind, text⟩ :: split rest := by
  obtain ⟨c, cs, htext⟩ := List.exists_cons_of_ne_nil
    (List.append_ne_nil_of_left_ne_nil h.lexeme.ne_nil rest)
  rw [htext, split_of_starting (starting_of_longest h htext) htext]

/-- The pieces that the grammar allows are those of the items. -/
lemma Lexed.pieces_eq {cs : List Char} {pieces : List Piece} (h : Lexed cs pieces) (line : Nat) :
    (Item.place line (split cs)).map Item.piece = pieces := by
  induction h generalizing line with
  | done => rfl
  | skip h hkind _ ih =>
    rw [split_of_longest h, Item.place]
    rcases hkind with rfl | rfl <;> exact ih _
  | token h _ ih =>
    rw [split_of_longest h, Item.place]
    exact congrArg (List.cons _) (ih _)
  | unterminated h =>
    rcases starting_of_stuck h with ⟨-, hstarting⟩ | ⟨hne, -⟩
    · rw [split_of_starting hstarting (List.append_nil _)]
      rfl
    · exact absurd rfl hne
  | unexpected hc h _ ih =>
    rcases starting_of_stuck h with ⟨hquote, -⟩ | ⟨-, hstarting⟩
    · exact absurd hquote hc
    · rw [split_of_starting hstarting List.singleton_append, Item.place]
      exact congrArg (List.cons _) (ih _)

/-- The items of a text are as the grammar allows. -/
lemma lexed_place (cs : List Char) (line : Nat) :
    Lexed cs ((Item.place line (split cs)).map Item.piece) := by
  generalize hn : cs.length = n
  induction n using Nat.strongRecOn generalizing cs line with
  | ind n ih =>
    cases cs with
    | nil => exact .done
    | cons c cs =>
      obtain ⟨rest, htext⟩ := starting_isPrefix c cs
      have hlength := congrArg List.length htext
      have hpos := List.length_pos_iff.mpr (starting_ne_nil c cs)
      rw [List.length_append, hn] at hlength
      have hrest := fun line => ih rest.length (by omega) rest line rfl
      rcases starting_lexeme htext with hlexeme | ⟨rfl, hfault⟩ | ⟨hc, hfault⟩
      · have hlongest := longest_of_starting hlexeme htext rfl
        rw [← htext, split_of_longest hlongest, Item.place]
        generalize starting c cs = fragment at hlexeme hlongest
        obtain ⟨kind, text⟩ := fragment
        cases kind with
        | blank => exact .skip hlongest (.inl rfl) (hrest _)
        | comment => exact .skip hlongest (.inr rfl) (hrest _)
        | token kind => exact .token hlongest (hrest _)
        | fault cause => exact absurd rfl (ne_fault_of_lexeme hlexeme cause)
      · have hstuck := stuck_of_starting (congrArg Fragment.kind hfault)
        rw [split_of_starting hfault (List.append_nil _)]
        exact .unterminated hstuck
      · have hstuck := stuck_of_starting (congrArg Fragment.kind hfault)
        rw [hfault] at htext
        obtain rfl : rest = cs := List.cons.inj htext |>.2
        rw [split_of_starting hfault htext, Item.place]
        exact .unexpected hc hstuck (hrest _)

/-- Scanning is the lexing by longest match of the lexical grammar: its items are the pieces that
the grammar allows, and no others. -/
theorem lexed_iff_scan (source : String) (pieces : List Piece) :
    Lexed source.toList pieces ↔ (scan source).map Item.piece = pieces := by
  constructor
  · intro h
    exact h.pieces_eq 1
  · rintro rfl
    exact lexed_place source.toList 1

end GermanLox
