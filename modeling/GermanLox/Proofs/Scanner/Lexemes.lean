import GermanLox.Proofs.Scanner.Looking

/-!
# A lexeme is taken where a fragment is cut

Between two characters of its source a scanner takes what is cut off there. The bytes of the
fragment are then behind it, with their line breaks counted, and its kind is pending or its fault
given.
-/

namespace GermanLox
namespace Scanner

variable {s : Scanner} {b : UInt8}

section Forms

variable {form : Char → Bool} {c : Char} {cs : List Char}

lemma asciiIs_of_isAscii (h : IsAscii c) : asciiIs form c.toUInt8 = form c := by
  rw [asciiIs, ofUInt8_toUInt8 h, decide_eq_true (toUInt8_lt h), Bool.true_and]

lemma asciiIs_of_le (h : 0x80 ≤ b) : asciiIs form b = false := by
  rw [asciiIs, decide_eq_false (UInt8.not_lt.mpr h), Bool.false_and]

lemma isAscii_of_isDigit (h : c.isDigit = true) : IsAscii c := by
  simp only [Char.isDigit, Bool.and_eq_true, decide_eq_true_eq, UInt32.le_iff_toNat_le] at h
  exact Nat.lt_of_le_of_lt h.2 (by decide)

lemma isAscii_of_isAlpha (h : c.isAlpha = true) : IsAscii c := by
  rw [isAlpha_iff] at h
  simp only [UInt32.le_iff_toNat_le] at h
  rcases h with h | h
  · exact Nat.lt_of_le_of_lt h.2 (by decide)
  · exact Nat.lt_of_le_of_lt h.2 (by decide)

lemma not_isAscii_of_isGermanLetter (h : isGermanLetter c = true) : ¬ IsAscii c := by
  simp only [isGermanLetter, List.mem_cons, List.not_mem_nil, or_false, decide_eq_true_eq] at h
  rcases h with rfl | rfl | rfl | rfl | rfl | rfl | rfl <;> decide

lemma isLetter_eq (c : Char) : isLetter c = (c.isAlpha || c = '_' || isGermanLetter c) :=
  rfl

/-- A letter of one byte. -/
lemma isLetter_of_isAscii (h : IsAscii c) : isLetter c = (c.isAlpha || c = '_') := by
  have hgerman : isGermanLetter c = false := by
    by_contra hgerman
    exact not_isAscii_of_isGermanLetter (Bool.eq_true_of_not_eq_false hgerman) h
  rw [isLetter_eq, hgerman, Bool.or_false]

lemma isLetter_of_not_isAscii (h : ¬ IsAscii c) : isLetter c = isGermanLetter c := by
  have halpha : c.isAlpha = false := by
    by_contra halpha
    exact h (isAscii_of_isAlpha (Bool.eq_true_of_not_eq_false halpha))
  have hline : c ≠ '_' := by
    rintro rfl
    exact h (by decide)
  rw [isLetter_eq, halpha, decide_eq_false hline, Bool.false_or, Bool.false_or]

lemma isDigit_of_not_isAscii (h : ¬ IsAscii c) : c.isDigit = false := by
  by_contra hdigit
  exact h (isAscii_of_isDigit (Bool.eq_true_of_not_eq_false hdigit))

lemma takeWhile_digits (cs : List Char) :
    (utf8 cs).takeWhile (asciiIs Char.isDigit) = utf8 (cs.takeWhile Char.isDigit) := by
  refine takeWhile_utf8 ?_ ?_ cs
  · intro c hc b hb
    have hascii := isAscii_of_isDigit hc
    rw [utf8EncodeChar_of_isAscii hascii, List.mem_singleton] at hb
    rw [hb, asciiIs_of_isAscii hascii, hc]
  · intro c hc b hb
    by_cases hascii : IsAscii c
    · rw [utf8EncodeChar_of_isAscii hascii] at hb
      obtain rfl := Option.some.inj hb
      rw [asciiIs_of_isAscii hascii, hc]
    · exact asciiIs_of_le (le_of_mem_utf8EncodeChar hascii (List.mem_of_mem_head? hb))

/-- A form that is seen at the first byte. -/
lemma asciiIs_headD (hascii : ∀ c, form c = true → IsAscii c) (hzero : form '\x00' = false)
    (cs : List Char) : asciiIs form ((utf8 cs).headD 0) = cs.head?.any form := by
  cases cs with
  | nil => exact hzero
  | cons c cs =>
    rw [List.head?_cons, Option.any_some]
    by_cases hc : IsAscii c
    · rw [utf8_cons_of_isAscii hc]
      exact asciiIs_of_isAscii hc
    · obtain ⟨b, bs, hbytes, hb⟩ := exists_utf8_cons hc cs
      have hform : form c = false := by
        by_contra hform
        exact hc (hascii c (Bool.eq_true_of_not_eq_false hform))
      rw [hbytes, hform]
      exact asciiIs_of_le hb

end Forms

section Symbols

variable {c d : Char} {cs : List Char}

/-- Symbols of two characters. -/
lemma ofSpelling?_pair (c d : Char) : Symbol.ofSpelling? (String.ofList [c, d]) =
    if d = '=' then (operator? c).map Prod.snd else none := by
  refine Option.ext fun symbol => ?_
  rw [Symbol.ofSpelling?_eq_some_iff]
  constructor
  · intro h
    have htext := congrArg String.toList h
    rw [String.toList_ofList] at htext
    cases symbol <;> simp [Symbol.spelling] at htext <;> (obtain ⟨rfl, rfl⟩ := htext; rfl)
  · intro h
    split at h
    · rename_i hd
      subst hd
      unfold operator? at h
      split at h <;> cases h <;> rfl
    · cases h

lemma ofSpelling?_pair_of_none (h : operator? c = none) :
    Symbol.ofSpelling? (String.ofList [c, d]) = none := by
  rw [ofSpelling?_pair, h, Option.map_none, ite_self]

/-- Symbols of one character. -/
lemma ofSpelling?_single (c : Char) : Symbol.ofSpelling? (String.ofList [c]) =
    (punctuator? c).or
      (((operator? c).map Prod.fst).or (if c = '/' then some .slash else none)) := by
  refine Option.ext fun symbol => ?_
  rw [Symbol.ofSpelling?_eq_some_iff]
  constructor
  · intro h
    have htext := congrArg String.toList h
    rw [String.toList_ofList] at htext
    cases symbol <;> simp [Symbol.spelling] at htext <;> (obtain rfl := htext; rfl)
  · intro h
    unfold punctuator? at h
    split at h
    all_goals try (cases h; rfl)
    unfold operator? at h
    split at h
    all_goals try (cases h; rfl)
    rw [Option.map_none, Option.none_or, Option.none_or] at h
    split at h
    · cases h
      subst c
      rfl
    · cases h

/-- What no symbol goes on with is a symbol by itself. -/
lemma starting_single {symbol : Symbol} (h : Symbol.ofSpelling? (String.ofList [c]) = some symbol)
    (hcomment : ¬ (c = '/' ∧ cs.head? = some '/'))
    (hpair : ∀ d ∈ cs.head?, Symbol.ofSpelling? (String.ofList [c, d]) = none) :
    Fragment.starting c cs = ⟨.token (.symbol symbol), [c]⟩ := by
  have hspelling := Symbol.ofSpelling?_eq_some_iff.mp h
  obtain ⟨hblank, hquote, hdigit, hletter⟩ := symbol.head_spelling c (by rw [hspelling]; simp)
  rw [Fragment.starting_other hblank hquote hdigit hletter hcomment, Fragment.symbolic,
    Option.bind_eq_none_iff.mpr hpair, h]

lemma starting_pair {symbol : Symbol}
    (h : Symbol.ofSpelling? (String.ofList [c, d]) = some symbol) :
    Fragment.starting c (d :: cs) = ⟨.token (.symbol symbol), [c, d]⟩ := by
  have hspelling := Symbol.ofSpelling?_eq_some_iff.mp h
  obtain ⟨hblank, hquote, hdigit, hletter⟩ := symbol.head_spelling c (by rw [hspelling]; simp)
  have hcomment : ¬ (c = '/' ∧ (d :: cs).head? = some '/') := by
    rintro ⟨rfl, hd⟩
    obtain rfl := Option.some.inj hd
    exact symbol.ne_slashes (by rw [hspelling, String.toList_ofList])
  rw [Fragment.starting_other hblank hquote hdigit hletter hcomment, Fragment.symbolic,
    List.head?_cons, Option.bind_some, h]
  rfl

/-- What is nothing else is a stray character. -/
lemma starting_stray (hblank : isBlank c = false) (hquote : c ≠ '"') (hdigit : c.isDigit = false)
    (hletter : isLetter c = false) (hslash : c ≠ '/') (hpunctuator : punctuator? c = none)
    (hoperator : operator? c = none) :
    Fragment.starting c cs = ⟨.fault .unexpectedCharacter, [c]⟩ := by
  have hpair : ∀ d ∈ cs.head?, Symbol.ofSpelling? (String.ofList [c, d]) = none :=
    fun _ _ => ofSpelling?_pair_of_none hoperator
  have hsingle : Symbol.ofSpelling? (String.ofList [c]) = none := by
    rw [ofSpelling?_single, hpunctuator, hoperator, if_neg hslash]
    rfl
  rw [Fragment.starting_other hblank hquote hdigit hletter (fun h => hslash h.1),
    Fragment.symbolic, Option.bind_eq_none_iff.mpr hpair, hsingle]

end Symbols

section Lexemes

variable {before text rest cs : List Char} {c : Char} {room : Nat}

/-- The scanner is about to take a lexeme. -/
structure Begins (s : Scanner) (before rest : List Char) : Prop extends At s before rest where
  start : s.start = s.curr

/-- What it comes to when a fragment has been taken. -/
def leave (s : Scanner) (fragment : Fragment) : Except Item Unit × Scanner :=
  let s := s.past (utf8 fragment.text)
  match fragment.kind with
  | .blank => (.ok (), s)
  | .comment => (.ok (), s)
  | .token kind => (.ok (), { s with pending := some kind })
  | .fault cause => (.error (.fault s.line cause), s)

/-- The text of a lexeme. -/
lemma slice_past (h : s.Begins before (text ++ rest)) :
    slice start curr (s.past (utf8 text)) =
      some (.ok (String.ofList text), s.past (utf8 text)) :=
  slice_eq h.toAt.past.source (h.start.trans h.curr) h.toAt.past.curr

/-- The scanner after the body of a text. -/
lemma repeatWhile_body (h : s.Begins before ('"' :: (text ++ rest))) (htext : ∀ c ∈ text, c ≠ '"')
    (hrest : Ends (· ≠ '"') rest) (hroom : (utf8 (text ++ rest)).length < room) :
    repeatWhile stringRound room (s.past (utf8 ['"'])) =
      some (.ok (), s.past (utf8 ('"' :: text))) := by
  have hopen : (s.past (utf8 ['"'])).At (before ++ ['"']) (text ++ rest) := h.toAt.past
  have hbody : (text ++ rest).takeWhile (fun c => decide (c ≠ '"')) = text :=
    takeWhile_append_eq_iff.mpr ⟨fun c hc => decide_eq_true (htext c hc), hrest⟩
  rw [repeatWhile_stringRound (by rwa [hopen.ahead_eq]), hopen.ahead_eq,
    takeWhile_ne_utf8 (by decide), hbody, past_utf8, List.singleton_append]

/-- What is between the quotes of a text. -/
lemma slice_body (h : s.Begins before ('"' :: (text ++ '"' :: rest))) :
    slice (·.start + 1) (·.curr - 1) (s.past (utf8 ('"' :: (text ++ ['"'])))) =
      some (.ok (String.ofList text), s.past (utf8 ('"' :: (text ++ ['"'])))) := by
  have hsource : s.source.toList = before ++ ['"'] ++ text ++ '"' :: rest := by
    rw [List.append_assoc before, List.append_assoc before]
    exact h.source
  have hquote : (utf8 ['"']).length = 1 := rfl
  refine slice_eq hsource ?_ ?_
  · change s.start + 1 = _
    rw [h.start, h.curr, utf8_append, List.length_append, hquote]
  · change s.curr + (utf8 (['"'] ++ (text ++ ['"']))).length - 1 = _
    simp only [h.curr, utf8_append, List.length_append, hquote]
    omega

lemma parseString_closed (h : s.Begins before ('"' :: (text ++ '"' :: rest)))
    (htext : ∀ c ∈ text, c ≠ '"') (hroom : (utf8 (text ++ '"' :: rest)).length < room) :
    parseString room (s.past (utf8 ['"'])) =
      some (s.leave ⟨.token (.string (String.ofList text)), '"' :: (text ++ ['"'])⟩) := by
  have hends : Ends (· ≠ '"') ('"' :: rest) := by
    rintro _ ⟨⟩
    decide
  have hat : (s.past (utf8 ('"' :: text))).At (before ++ '"' :: text) ('"' :: rest) :=
    h.toAt.past
  have hahead : (s.past (utf8 ('"' :: text))).ahead = '"'.toUInt8 :: utf8 rest := hat.ahead_eq
  have hclose : advance (s.past (utf8 ('"' :: text))) =
      some (.ok '"'.toUInt8, s.past (utf8 ('"' :: (text ++ ['"'])))) := by
    rw [advance_of_ne hahead (by decide), ← List.cons_append, ← past_utf8]
    rfl
  rw [parseString, ExceptT.bind_of_ok (repeatWhile_body h htext hends hroom),
    ExceptT.bind_of_ok (isAtEnd_of_cons hahead)]
  refine (ExceptT.bind_of_ok hclose _).trans ((ExceptT.bind_of_ok (slice_body h) _).trans ?_)
  rfl

lemma parseString_open (h : s.Begins before ('"' :: text)) (htext : ∀ c ∈ text, c ≠ '"')
    (hroom : (utf8 text).length < room) :
    parseString room (s.past (utf8 ['"'])) =
      some (s.leave ⟨.fault .unterminatedString, '"' :: text⟩) := by
  rw [← List.append_nil text] at h hroom
  have hat : (s.past (utf8 ('"' :: text))).At (before ++ '"' :: text) [] := h.toAt.past
  have hends : Ends (· ≠ '"') [] := by
    rintro _ ⟨⟩
  rw [parseString, ExceptT.bind_of_ok (repeatWhile_body h htext hends hroom),
    ExceptT.bind_of_ok (isAtEnd_of_nil hat.ahead_eq)]
  rfl

lemma parseString_eq (h : s.Begins before ('"' :: cs)) (hroom : (utf8 cs).length < room) :
    parseString room (s.past (utf8 ['"'])) = some (s.leave (Fragment.quoted cs)) := by
  have hsplit := List.takeWhile_append_dropWhile (p := fun c => decide (c ≠ '"')) (l := cs)
  have hbody : ∀ c ∈ cs.takeWhile (fun c => decide (c ≠ '"')), c ≠ '"' := by
    intro c hc
    simpa using List.mem_takeWhile_imp hc
  rw [Fragment.quoted]
  generalize cs.takeWhile (fun c => decide (c ≠ '"')) = body at hsplit hbody ⊢
  cases hdrop : cs.dropWhile (fun c => decide (c ≠ '"')) with
  | nil =>
    obtain rfl : body = cs := by rw [← hsplit, hdrop, List.append_nil]
    exact parseString_open h hbody hroom
  | cons quote after =>
    have hhead := List.head?_dropWhile_not (fun c => decide (c ≠ '"')) cs
    rw [hdrop] at hhead hsplit
    obtain rfl : quote = '"' := by simpa using hhead
    rw [← hsplit] at h hroom
    exact parseString_closed h hbody hroom

/-- A point and digits behind it are taken, if there are digits. -/
lemma takePlaces_eq (h : s.ahead = utf8 cs) (hroom : s.ahead.length < room) :
    takePlaces room s = some (.ok (), s.past (utf8 (Fragment.places cs))) := by
  rw [takePlaces, ExceptT.bind_of_ok (peek_eq s)]
  refine (ExceptT.bind_of_ok (peekNext_eq s) _).trans ?_
  rcases Fragment.places_cases cs with hnone | ⟨d, ds, rfl, hd, hsome⟩
  · have hcond : ¬ (decide (s.ahead.headD 0 = '.'.toUInt8) &&
        asciiIs Char.isDigit (s.ahead.tail.headD 0)) = true := by
      intro hcond
      rw [Bool.and_eq_true, decide_eq_true_eq, h] at hcond
      obtain ⟨hpoint, hdigit⟩ := hcond
      have hhead : (utf8 cs).head? = some '.'.toUInt8 := by
        cases hbytes : utf8 cs with
        | nil =>
          rw [hbytes] at hpoint
          cases hpoint
        | cons b bs => rw [← hpoint, hbytes, List.head?_cons, List.headD_cons]
      obtain ⟨after, rfl⟩ := List.head?_eq_some_iff.mp ((head?_utf8_eq_iff (by decide)).mp hhead)
      have hafter : after.head?.any Char.isDigit = true := by
        rw [← asciiIs_headD (fun _ => isAscii_of_isDigit) (by decide)]
        exact hdigit
      cases after with
      | nil => cases hafter
      | cons d ds =>
        have hd : d.isDigit = true := hafter
        simp [Fragment.places, hd] at hnone
    rw [if_neg hcond, hnone]
    rfl
  · have hascii := isAscii_of_isDigit hd
    have hahead : s.ahead = '.'.toUInt8 :: utf8 (d :: ds) := h
    have hnext : (s.past ['.'.toUInt8]).ahead = utf8 (d :: ds) := ahead_past hahead
    have hcond : (decide (s.ahead.headD 0 = '.'.toUInt8) &&
        asciiIs Char.isDigit (s.ahead.tail.headD 0)) = true := by
      rw [hahead, List.headD_cons, List.tail_cons, decide_eq_true rfl, Bool.true_and,
        asciiIs_headD (fun _ => isAscii_of_isDigit) (by decide)]
      exact hd
    have hlength : (s.past ['.'.toUInt8]).ahead.length < room := by
      rw [hnext]
      rw [hahead, List.length_cons] at hroom
      omega
    have hdigits : repeatWhile digitRound room (s.past ['.'.toUInt8]) =
        some (.ok (), (s.past ['.'.toUInt8]).past (utf8 (d :: ds.takeWhile Char.isDigit))) := by
      rw [repeatWhile_digitRound hlength, hnext, takeWhile_digits, List.takeWhile_cons_of_pos hd]
    rw [if_pos hcond, ExceptT.bind_of_ok (advance_of_ne hahead (by decide)), hdigits, hsome,
      ← past_append]
    rfl

lemma parseNumber_eq (h : s.Begins before (c :: cs)) (hc : c.isDigit = true)
    (hroom : (utf8 cs).length < room) :
    parseNumber room (s.past (utf8 [c])) = some (s.leave (Fragment.numeral (c :: cs))) := by
  have hat : (s.past (utf8 [c])).At (before ++ [c]) cs := h.toAt.past
  have hsplit := List.takeWhile_append_dropWhile (p := Char.isDigit) (l := cs)
  have hdigits : repeatWhile digitRound room (s.past (utf8 [c])) =
      some (.ok (), s.past (utf8 (c :: cs.takeWhile Char.isDigit))) := by
    rw [repeatWhile_digitRound (by rwa [hat.ahead_eq]), hat.ahead_eq, takeWhile_digits, past_utf8,
      List.singleton_append]
  have hbegins :
      s.Begins before ((c :: cs.takeWhile Char.isDigit) ++ cs.dropWhile Char.isDigit) := by
    rwa [List.cons_append, hsplit]
  have hahead := hbegins.toAt.past.ahead_eq
  have hlength : (s.past (utf8 (c :: cs.takeWhile Char.isDigit))).ahead.length < room := by
    rw [hahead]
    rw [← hsplit, utf8_append, List.length_append] at hroom
    omega
  have hplaces := takePlaces_eq hahead hlength
  have htext : (Fragment.numeral (c :: cs)).text =
      c :: cs.takeWhile Char.isDigit ++ Fragment.places (cs.dropWhile Char.isDigit) := by
    rw [Fragment.numeral, List.takeWhile_cons_of_pos hc, List.dropWhile_cons_of_pos hc]
  obtain ⟨rest, hrest⟩ := Fragment.numeral_isPrefix (c :: cs)
  rw [← hrest] at h
  rw [past_utf8, ← htext] at hplaces
  rw [parseNumber, ExceptT.bind_of_ok hdigits, ExceptT.bind_of_ok hplaces]
  refine (ExceptT.bind_of_ok (slice_past h) _).trans ?_
  rw [String.toList_ofList]
  rfl

lemma wordRound_of_isWordCharacter (h : s.At before (c :: cs)) (hc : isWordCharacter c = true) :
    wordRound s = some (.ok true, s.past (utf8 [c])) := by
  have hne : c ≠ '\n' := by
    rintro rfl
    exact absurd hc (by decide)
  rw [wordRound, past_singleton hne]
  by_cases hascii : IsAscii c
  · have hahead := h.ahead_eq.trans (utf8_cons_of_isAscii hascii cs)
    have hform : asciiIs (fun c => c.isAlphanum || c = '_') c.toUInt8 = true := by
      rw [asciiIs_of_isAscii hascii]
      rw [isWordCharacter, isLetter_of_isAscii hascii] at hc
      rwa [Char.isAlphanum, Bool.or_right_comm]
    rw [ExceptT.bind_of_ok (peek_of_cons hahead), if_pos hform,
      ExceptT.bind_of_ok (advance_of_ahead hahead), utf8Size_of_isAscii hascii]
    rfl
  · obtain ⟨b, bs, hbytes, hb⟩ := exists_utf8_cons hascii cs
    have hgerman : isGermanLetter c = true := by
      rwa [isWordCharacter, isLetter_of_not_isAscii hascii, isDigit_of_not_isAscii hascii,
        Bool.or_false] at hc
    have hcurr : read curr s = some (.ok s.curr, s) := rfl
    rw [ExceptT.bind_of_ok (peek_of_cons (h.ahead_eq.trans hbytes)),
      if_neg (by simp [asciiIs_of_le hb]), if_pos hb]
    refine (ExceptT.bind_of_ok hcurr _).trans
      ((ExceptT.bind_of_ok (charAt_eq h.source h.curr) _).trans ?_)
    simp only [List.head?_cons, if_pos hgerman]
    rfl

lemma wordRound_of_ends (h : s.At before cs) (hends : Ends isWordCharacter cs) :
    wordRound s = some (.ok false, s) := by
  rw [wordRound, ExceptT.bind_of_ok (peek_eq s), h.ahead_eq]
  have hascii : ∀ c : Char, (c.isAlphanum || decide (c = '_')) = true → IsAscii c := by
    intro c hc
    rw [Char.isAlphanum, Bool.or_eq_true, Bool.or_eq_true, decide_eq_true_eq] at hc
    rcases hc with (halpha | hdigit) | rfl
    · exact isAscii_of_isAlpha halpha
    · exact isAscii_of_isDigit hdigit
    · decide
  have hform : asciiIs (fun c => c.isAlphanum || c = '_') ((utf8 cs).headD 0) = false := by
    rw [asciiIs_headD hascii (by decide)]
    cases cs with
    | nil => rfl
    | cons c cs =>
      by_contra hform
      have hc : (c.isAlphanum || decide (c = '_')) = true := Bool.eq_true_of_not_eq_false hform
      have hword := hends c rfl
      rw [isWordCharacter, isLetter_of_isAscii (hascii c hc)] at hword
      rw [Char.isAlphanum, Bool.or_right_comm, hword] at hc
      cases hc
  rw [hform, if_neg (by decide)]
  split
  · have hcurr : read curr s = some (.ok s.curr, s) := rfl
    refine (ExceptT.bind_of_ok hcurr _).trans
      ((ExceptT.bind_of_ok (charAt_eq h.source h.curr) _).trans ?_)
    cases cs with
    | nil => rfl
    | cons c cs =>
      have hgerman : ¬ isGermanLetter c = true := by
        intro hgerman
        have hword := hends c rfl
        rw [isWordCharacter, isLetter_eq, hgerman, Bool.or_true, Bool.true_or] at hword
        cases hword
      simp only [List.head?_cons, if_neg hgerman]
      rfl
  · rfl

/-- A word is taken a character at a time. -/
lemma repeatWhile_wordRound (h : s.At before cs) (hroom : (utf8 cs).length < room) :
    repeatWhile wordRound room s =
      some (.ok (), s.past (utf8 (cs.takeWhile isWordCharacter))) := by
  induction cs generalizing s before room with
  | nil =>
    obtain ⟨room, rfl⟩ := Nat.exists_eq_add_one.mpr (Nat.zero_lt_of_lt hroom)
    exact repeatWhile_of_false (wordRound_of_ends h (by rintro _ ⟨⟩)) room
  | cons c cs ih =>
    obtain ⟨room, rfl⟩ := Nat.exists_eq_add_one.mpr (Nat.zero_lt_of_lt hroom)
    cases hc : isWordCharacter c with
    | false =>
      rw [List.takeWhile_cons_of_neg (by simp [hc])]
      exact repeatWhile_of_false (wordRound_of_ends h (by rintro _ ⟨⟩; exact hc)) room
    | true =>
      have hnext : (s.past (utf8 [c])).At (before ++ [c]) cs := h.past
      have hsize := List.length_pos_iff.mpr (String.utf8EncodeChar_ne_nil (c := c))
      rw [utf8_cons, List.length_append] at hroom
      rw [repeatWhile_of_true (wordRound_of_isWordCharacter h hc), ih hnext (by omega),
        past_utf8, List.takeWhile_cons_of_pos hc, List.singleton_append]

lemma parseIdentifier_eq (h : s.Begins before (c :: cs)) (hroom : (utf8 cs).length < room) :
    parseIdentifier room (s.past (utf8 [c])) =
      some (s.leave ⟨.token (Fragment.wordKind (c :: cs.takeWhile isWordCharacter)),
        c :: cs.takeWhile isWordCharacter⟩) := by
  have hat : (s.past (utf8 [c])).At (before ++ [c]) cs := h.toAt.past
  have hword : repeatWhile wordRound room (s.past (utf8 [c])) =
      some (.ok (), s.past (utf8 (c :: cs.takeWhile isWordCharacter))) := by
    rw [repeatWhile_wordRound hat hroom, past_utf8, List.singleton_append]
  have hbegins : s.Begins before
      ((c :: cs.takeWhile isWordCharacter) ++ cs.dropWhile isWordCharacter) := by
    rwa [List.cons_append, List.takeWhile_append_dropWhile]
  rw [parseIdentifier, ExceptT.bind_of_ok hword, Fragment.wordKind]
  refine (ExceptT.bind_of_ok (slice_past hbegins) _).trans ?_
  cases Keyword.ofSpelling? (String.ofList (c :: cs.takeWhile isWordCharacter)) with
  | none => rfl
  | some k => rfl

/-- A comment reaches up to a line break, and has none. -/
lemma skipComment_eq (h : s.At before cs) :
    skipComment s = some (.ok (), s.past (utf8 (cs.takeWhile (· ≠ '\n')))) := by
  have hlength : s.length = s.curr + s.ahead.length := by rw [h.ahead_eq, h.length_eq]
  have hdemand : demand (fun s => if s.curr ≤ s.length then some (s.bytes.toList.drop s.curr)
      else none) s = some (.ok s.ahead, s) := by
    rw [demand, if_pos (by omega)]
    rfl
  have hnewline : '\n'.toUInt8 ∉ s.ahead.takeWhile (· ≠ '\n'.toUInt8) := by
    intro hmem
    simpa using List.mem_takeWhile_imp hmem
  have hindex := getD_idxOf? s.ahead '\n'.toUInt8
  rw [skipComment, ExceptT.bind_of_ok hdemand, ← takeWhile_ne_utf8 (by decide), ← h.ahead_eq,
    past_of_not_mem hnewline, ← hindex]
  cases s.ahead.idxOf? '\n'.toUInt8 with
  | none =>
    rw [Option.getD_none, ← hlength]
    rfl
  | some i => rfl

/-- A character that is a symbol by itself. -/
lemma scanAscii_punctuator {symbol : Symbol} (h : punctuator? c = some symbol) :
    scanAscii room c (s.past (utf8 [c])) = some (s.leave (Fragment.starting c cs)) := by
  have hoperator : operator? c = none := by
    unfold punctuator? at h
    split at h <;> first | rfl | cases h
  have hslash : c ≠ '/' := by
    rintro rfl
    cases h
  have hsingle : Symbol.ofSpelling? (String.ofList [c]) = some symbol := by
    rw [ofSpelling?_single, h]
    rfl
  have hpair : ∀ d ∈ cs.head?, Symbol.ofSpelling? (String.ofList [c, d]) = none :=
    fun _ _ => ofSpelling?_pair_of_none hoperator
  rw [scanAscii, h, starting_single hsingle (fun h => hslash h.1) hpair]
  rfl

/-- A character that an equals sign can be added to. -/
lemma scanAscii_operator {alone withEqual : Symbol} (hat : s.At before (c :: cs))
    (h : operator? c = some (alone, withEqual)) :
    scanAscii room c (s.past (utf8 [c])) = some (s.leave (Fragment.starting c cs)) := by
  have hpunctuator : punctuator? c = none := by
    unfold operator? at h
    split at h <;> first | rfl | cases h
  have hslash : c ≠ '/' := by
    rintro rfl
    cases h
  have hnext : (s.past (utf8 [c])).At (before ++ [c]) cs := hat.past
  rw [scanAscii, hpunctuator, h]
  by_cases hequal : cs.head? = some '='
  · obtain ⟨cs, rfl⟩ := List.head?_eq_some_iff.mp hequal
    have hpair : Symbol.ofSpelling? (String.ofList [c, '=']) = some withEqual := by
      rw [ofSpelling?_pair, if_pos rfl, h]
      rfl
    have hpast : (s.past (utf8 [c])).past (utf8 ['=']) = s.past (utf8 [c, '=']) :=
      past_utf8 s [c] ['=']
    refine (ExceptT.bind_of_ok (matchByte_of_head hnext.ahead_eq (by decide)) _).trans ?_
    rw [starting_pair hpair, leave, ← hpast]
    rfl
  · have hbyte : (s.past (utf8 [c])).ahead.head? ≠ some '='.toUInt8 := by
      rw [hnext.ahead_eq, Ne, head?_utf8_eq_iff (by decide)]
      exact hequal
    have hsingle : Symbol.ofSpelling? (String.ofList [c]) = some alone := by
      rw [ofSpelling?_single, hpunctuator, h]
      rfl
    have hpair : ∀ d ∈ cs.head?, Symbol.ofSpelling? (String.ofList [c, d]) = none := by
      intro d hd
      rw [ofSpelling?_pair, if_neg]
      rintro rfl
      exact hequal hd
    refine (ExceptT.bind_of_ok (matchByte_of_not hbyte) _).trans ?_
    rw [starting_single hsingle (fun h => hslash h.1) hpair]
    rfl

lemma scanAscii_slash (hat : s.At before ('/' :: cs)) :
    scanAscii room '/' (s.past (utf8 ['/'])) = some (s.leave (Fragment.starting '/' cs)) := by
  have hnext : (s.past (utf8 ['/'])).At (before ++ ['/']) cs := hat.past
  by_cases hslash : cs.head? = some '/'
  · obtain ⟨cs, rfl⟩ := List.head?_eq_some_iff.mp hslash
    have hnext' : ((s.past (utf8 ['/'])).past (utf8 ['/'])).At (before ++ ['/'] ++ ['/']) cs :=
      hnext.past
    refine (ExceptT.bind_of_ok (matchByte_of_head hnext.ahead_eq (by decide)) _).trans ?_
    refine (skipComment_eq hnext').trans ?_
    rw [Fragment.starting_slashes, past_utf8, past_utf8]
    rfl
  · have hbyte : (s.past (utf8 ['/'])).ahead.head? ≠ some '/'.toUInt8 := by
      rw [hnext.ahead_eq, Ne, head?_utf8_eq_iff (by decide)]
      exact hslash
    have hpair : ∀ d ∈ cs.head?, Symbol.ofSpelling? (String.ofList ['/', d]) = none :=
      fun _ _ => ofSpelling?_pair_of_none rfl
    refine (ExceptT.bind_of_ok (matchByte_of_not hbyte) _).trans ?_
    rw [starting_single (c := '/') rfl (fun h => hslash h.2) hpair]
    rfl

lemma scanAscii_eq (h : s.Begins before (c :: cs)) (hascii : IsAscii c) (hne : c ≠ '\n')
    (hroom : (utf8 cs).length < room) :
    scanAscii room c (s.past (utf8 [c])) = some (s.leave (Fragment.starting c cs)) := by
  cases hpunctuator : punctuator? c with
  | some symbol => exact scanAscii_punctuator hpunctuator
  | none =>
    cases hoperator : operator? c with
    | some symbols => exact scanAscii_operator h.toAt hoperator
    | none =>
      by_cases hslash : c = '/'
      · subst hslash
        exact scanAscii_slash h.toAt
      rw [scanAscii, hpunctuator, hoperator]
      by_cases hblank : isBlank c = true
      · have hspace : (decide (c = ' ') || decide (c = '\r') || decide (c = '\t')) = true := by
          simp only [isBlank, Bool.or_eq_true, decide_eq_true_eq] at hblank ⊢
          tauto
        simp only [if_pos hspace, Fragment.starting_blank hblank]
        rfl
      have hspace : ¬ (decide (c = ' ') || decide (c = '\r') || decide (c = '\t')) = true := by
        simp only [isBlank, Bool.or_eq_true, decide_eq_true_eq] at hblank ⊢
        tauto
      by_cases hquote : c = '"'
      · subst hquote
        rw [Fragment.starting_quote]
        exact parseString_eq h hroom
      by_cases hdigit : c.isDigit = true
      · simp only [if_neg hspace, if_neg hne, if_neg hslash, if_neg hquote, if_pos hdigit,
          Fragment.starting_digit hdigit]
        exact parseNumber_eq h hdigit hroom
      by_cases hletter : (c.isAlpha || decide (c = '_')) = true
      · rw [Fragment.starting_letter (by rwa [isLetter_of_isAscii hascii])]
        simp only [if_neg hspace, if_neg hne, if_neg hslash, if_neg hquote, if_neg hdigit,
          if_pos hletter]
        exact parseIdentifier_eq h hroom
      simp only [if_neg hspace, if_neg hne, if_neg hslash, if_neg hquote, if_neg hdigit,
        if_neg hletter]
      rw [starting_stray (Bool.eq_false_of_not_eq_true hblank) hquote
        (Bool.eq_false_of_not_eq_true hdigit)
        (by rw [isLetter_of_isAscii hascii]; exact Bool.eq_false_of_not_eq_true hletter) hslash
        hpunctuator hoperator]
      rfl

/-- A character of several bytes is a letter or a fault. -/
lemma scanWide_eq (h : s.Begins before (c :: cs)) (hascii : ¬ IsAscii c)
    (hroom : (utf8 cs).length < room) :
    scanWide room { s with curr := s.curr + 1 } = some (s.leave (Fragment.starting c cs)) := by
  have hne : ∀ d : Char, IsAscii d → c ≠ d := by
    rintro _ hd rfl
    exact hascii hd
  have hstart : read start { s with curr := s.curr + 1 } =
      some (.ok s.curr, { s with curr := s.curr + 1 }) := by
    rw [← h.start]
    rfl
  have hchar : charAt s.curr { s with curr := s.curr + 1 } =
      some (.ok (some c), { s with curr := s.curr + 1 }) :=
    charAt_eq (s := { s with curr := s.curr + 1 }) h.source h.curr
  have hchange : change (fun s => { s with curr := s.start + c.utf8Size })
      { s with curr := s.curr + 1 } = some (.ok (), s.past (utf8 [c])) := by
    rw [past_singleton (hne '\n' (by decide)), ← h.start]
    rfl
  refine (ExceptT.bind_of_ok hstart _).trans ((ExceptT.bind_of_ok hchar _).trans ?_)
  refine (ExceptT.bind_of_ok hchange _).trans ?_
  by_cases hgerman : isGermanLetter c = true
  · have hletter : isLetter c = true := by rwa [isLetter_of_not_isAscii hascii]
    rw [Fragment.starting_letter hletter, Option.getD_some, if_pos hgerman]
    exact parseIdentifier_eq h hroom
  · have hblank : isBlank c = false := by
      simp only [isBlank, hne ' ' (by decide), hne '\t' (by decide), hne '\r' (by decide),
        hne '\n' (by decide), decide_false, Bool.or_self]
    have hletter : isLetter c = false := by
      rw [isLetter_of_not_isAscii hascii]
      exact Bool.eq_false_of_not_eq_true hgerman
    have hpunctuator : punctuator? c = none := by
      unfold punctuator?
      split <;> first | rfl | exact absurd (by decide) hascii
    have hoperator : operator? c = none := by
      unfold operator?
      split <;> first | rfl | exact absurd (by decide) hascii
    rw [Option.getD_some, if_neg hgerman, starting_stray hblank (hne _ (by decide))
      (isDigit_of_not_isAscii hascii) hletter (hne _ (by decide)) hpunctuator hoperator]
    rfl

/-- What is taken is the fragment that is cut off there. -/
theorem scanToken_eq (h : s.Begins before (c :: cs)) (hroom : (utf8 cs).length < room) :
    scanToken room s = some (s.leave (Fragment.starting c cs)) := by
  by_cases hascii : IsAscii c
  · have hahead := h.ahead_eq.trans (utf8_cons_of_isAscii hascii cs)
    rw [scanToken, ExceptT.bind_of_ok (advance_of_ahead hahead), if_pos (toUInt8_lt hascii),
      ofUInt8_toUInt8 hascii]
    by_cases hne : c = '\n'
    · -- The only character that is counted when it is met in the open.
      subst hne
      rw [Fragment.starting_blank (by decide)]
      rfl
    · have hpast : s.past (utf8 [c]) = { s with curr := s.curr + 1 } := by
        rw [past_singleton hne, utf8Size_of_isAscii hascii]
      rw [← hpast]
      exact scanAscii_eq h hascii hne hroom
  · obtain ⟨b, bs, hbytes, hb⟩ := exists_utf8_cons hascii cs
    rw [scanToken, ExceptT.bind_of_ok (advance_of_ahead (h.ahead_eq.trans hbytes)),
      if_neg (UInt8.not_lt.mpr hb)]
    exact scanWide_eq h hascii hroom

end Lexemes

end Scanner
end GermanLox
