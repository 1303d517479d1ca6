import GermanLox.Token

/-!
# Fragments of a source text

A source text falls into fragments: blanks, comments, tokens, and characters or quotes that
start none. `Fragment.starting` takes the fragment at the head of a text and `Fragment.split` cuts
the whole text. A symbol of two characters wins over its first one; names, numbers, texts and
comments reach as far as they can.
-/

namespace GermanLox

/-- Why a stretch of source text is no token. -/
inductive LexicalFault where
  | unexpectedCharacter
  | unterminatedString
deriving DecidableEq

inductive FragmentKind where
  | blank
  | comment
  | token (kind : TokenKind)
  | fault (cause : LexicalFault)
deriving DecidableEq

structure Fragment where
  kind : FragmentKind
  text : List Char
deriving DecidableEq

/-- Blank, tabulator, carriage return or newline. -/
def isBlank (c : Char) : Bool :=
  c = ' ' || c = '\t' || c = '\r' || c = '\n'

/-- The characters a name may start with. -/
def isLetter (c : Char) : Bool :=
  c.isAlpha || c = '_' || c ∈ ['ä', 'ö', 'ü', 'Ä', 'Ö', 'Ü', 'ß']

/-- The characters a name may go on with. -/
def isWordCharacter (c : Char) : Bool :=
  isLetter c || c.isDigit

namespace Fragment

/-- A word is reserved or a name. -/
def wordKind (word : List Char) : TokenKind :=
  match Keyword.ofSpelling? (String.ofList word) with
  | some k => .keyword k
  | none => .identifier

/-- The text after an opening quote, up to the next quote. -/
def quoted (cs : List Char) : Fragment :=
  let body := cs.takeWhile (· ≠ '"')
  match cs.dropWhile (· ≠ '"') with
  | [] => ⟨.fault .unterminatedString, '"' :: cs⟩
  | quote :: _ => ⟨.token (.string (String.ofList body)), '"' :: body ++ [quote]⟩

/-- A point and the digits after it, if there is a digit after the point. -/
def places : List Char → List Char
  | '.' :: d :: cs => if d.isDigit then '.' :: d :: cs.takeWhile Char.isDigit else []
  | _ => []

/-- The number at the head of a text that starts with a digit. -/
def numeral (cs : List Char) : Fragment :=
  let text := cs.takeWhile Char.isDigit ++ places (cs.dropWhile Char.isDigit)
  ⟨.token (.number (Number.ofLexeme text)), text⟩

/-- A symbol, of two characters if it can be, or else a stray character. -/
def symbolic (c : Char) (cs : List Char) : Fragment :=
  match cs.head?.bind fun d => Symbol.ofSpelling? (String.ofList [c, d]) with
  | some s => ⟨.token (.symbol s), c :: cs.take 1⟩
  | none =>
    match Symbol.ofSpelling? (String.ofList [c]) with
    | some s => ⟨.token (.symbol s), [c]⟩
    | none => ⟨.fault .unexpectedCharacter, [c]⟩

/-- The fragment at the head of the text `c :: cs`. -/
def starting (c : Char) (cs : List Char) : Fragment :=
  if isBlank c then ⟨.blank, [c]⟩
  else if c = '"' then quoted cs
  else if c.isDigit then numeral (c :: cs)
  else if isLetter c then
    let word := c :: cs.takeWhile isWordCharacter
    ⟨.token (wordKind word), word⟩
  else if c = '/' ∧ cs.head? = some '/' then ⟨.comment, c :: cs.takeWhile (· ≠ '\n')⟩
  else symbolic c cs

/-- The fragments of a text whose first characters belong to a fragment already taken. -/
def splitAfter : Nat → List Char → List Fragment
  | _, [] => []
  | 0, c :: cs =>
    let fragment := starting c cs
    fragment :: splitAfter (fragment.text.length - 1) cs
  | taken + 1, _ :: cs => splitAfter taken cs

/-- The fragments of a text, in order. -/
def split (cs : List Char) : List Fragment :=
  splitAfter 0 cs

theorem places_isPrefix (cs : List Char) : places cs <+: cs := by
  unfold places
  split
  · split
    · simp only [List.cons_prefix_cons, true_and]
      exact List.takeWhile_prefix _
    · exact List.nil_prefix
  · exact List.nil_prefix

theorem numeral_isPrefix (cs : List Char) : (numeral cs).text <+: cs := by
  have h := (List.prefix_append_right_inj (cs.takeWhile Char.isDigit)).mpr
    (places_isPrefix (cs.dropWhile Char.isDigit))
  rwa [List.takeWhile_append_dropWhile] at h

theorem quoted_isPrefix (cs : List Char) : (quoted cs).text <+: '"' :: cs := by
  unfold quoted
  split
  · exact List.prefix_refl _
  · rename_i quote rest h
    have hs : cs.takeWhile (· ≠ '"') ++ quote :: rest = cs := by
      rw [← h, List.takeWhile_append_dropWhile]
    refine ⟨rest, ?_⟩
    simpa using hs

theorem symbolic_isPrefix (c : Char) (cs : List Char) : (symbolic c cs).text <+: c :: cs := by
  unfold symbolic
  split
  · exact List.cons_prefix_cons.mpr ⟨rfl, List.take_prefix 1 cs⟩
  · split <;> exact List.cons_prefix_cons.mpr ⟨rfl, List.nil_prefix⟩

/-- A fragment is a stretch of the text it starts. -/
theorem starting_isPrefix (c : Char) (cs : List Char) : (starting c cs).text <+: c :: cs := by
  unfold starting
  split
  · exact List.cons_prefix_cons.mpr ⟨rfl, List.nil_prefix⟩
  split
  · rename_i h
    subst h
    exact quoted_isPrefix cs
  split
  · exact numeral_isPrefix (c :: cs)
  split
  · exact List.cons_prefix_cons.mpr ⟨rfl, List.takeWhile_prefix _⟩
  split
  · exact List.cons_prefix_cons.mpr ⟨rfl, List.takeWhile_prefix _⟩
  · exact symbolic_isPrefix c cs

/-- A fragment has at least one character. -/
theorem starting_ne_nil (c : Char) (cs : List Char) : (starting c cs).text ≠ [] := by
  unfold starting
  split
  · simp
  split
  · unfold quoted
    split <;> simp
  split
  · rename_i h
    simp [numeral, h]
  split
  · simp
  split
  · simp
  · unfold symbolic
    split
    · simp
    · split <;> simp

theorem splitAfter_eq (taken : Nat) (cs : List Char) :
    splitAfter taken cs = split (cs.drop taken) := by
  induction cs generalizing taken with
  | nil => cases taken <;> rfl
  | cons c cs ih =>
    cases taken with
    | zero => rfl
    | succ taken => exact ih taken

theorem split_cons (c : Char) (cs : List Char) :
    split (c :: cs) =
      starting c cs :: split ((c :: cs).drop (starting c cs).text.length) := by
  have h : (starting c cs).text.length = (starting c cs).text.length - 1 + 1 := by
    have := List.length_pos_iff.mpr (starting_ne_nil c cs)
    omega
  rw [h, List.drop_succ_cons, ← splitAfter_eq]
  rfl

/-- The fragments of a text, put together again, are the text. -/
theorem flatMap_text_split (cs : List Char) : (split cs).flatMap Fragment.text = cs := by
  generalize hn : cs.length = n
  induction n using Nat.strongRecOn generalizing cs with
  | ind n ih =>
    cases cs with
    | nil => rfl
    | cons c cs =>
      obtain ⟨rest, hr⟩ := starting_isPrefix c cs
      have hpos := List.length_pos_iff.mpr (starting_ne_nil c cs)
      have hlen := congrArg List.length hr
      rw [List.length_append] at hlen
      have hdrop : (c :: cs).drop (starting c cs).text.length = rest := by
        rw [← hr, List.drop_left]
      rw [split_cons, List.flatMap_cons, hdrop, ih rest.length (by omega) rest rfl, hr]

end Fragment
end GermanLox
