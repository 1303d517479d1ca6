import GermanLox.Source.Fragment
import Mathlib.Data.List.TakeWhile

/-!
# What a fragment sees of the text after it

A fragment ends where the text after it cannot go on with it. For that, little of the text counts:
one letter is as good as another, and a line break is as good as the end. So a text is cut the same
way if another one stands after a line break behind it, or if names in it are spelled anew.
-/

namespace GermanLox

/-- A text does not go on with such characters. -/
def Ends (p : Char → Bool) (cs : List Char) : Prop :=
  ∀ c, cs.head? = some c → p c = false

lemma takeWhile_eq_nil_iff_ends {p : Char → Bool} {cs : List Char} :
    cs.takeWhile p = [] ↔ Ends p cs := by
  cases cs with
  | nil => simp [Ends]
  | cons c cs => simp [Ends, List.takeWhile_cons]

lemma takeWhile_append_eq_iff {p : Char → Bool} {cs rest : List Char} :
    (cs ++ rest).takeWhile p = cs ↔ (∀ c ∈ cs, p c = true) ∧ Ends p rest := by
  induction cs with
  | nil =>
    exact takeWhile_eq_nil_iff_ends.trans ⟨fun h => ⟨fun _ hc => (nomatch hc), h⟩, And.right⟩
  | cons c cs ih =>
    rw [List.cons_append, List.takeWhile_cons]
    by_cases hc : p c = true
    · simp [hc, ih]
    · simp [hc]

lemma dropWhile_of_ends {p : Char → Bool} {cs : List Char} (h : Ends p cs) :
    cs.dropWhile p = cs := by
  have hsplit := List.takeWhile_append_dropWhile (p := p) (l := cs)
  rwa [takeWhile_eq_nil_iff_ends.mpr h, List.nil_append] at hsplit

/-- Texts that end a fragment alike: they are the same for a while, and then both go on with a
letter, or one ends where the other has a line break. -/
inductive Alike : List Char → List Char → Prop
  | nil : Alike [] []
  | newline {cs} : Alike [] ('\n' :: cs)
  | letters {c d cs ds} (hc : isLetter c = true) (hd : isLetter d = true) :
    Alike (c :: cs) (d :: ds)
  | cons {c cs ds} (h : Alike cs ds) : Alike (c :: cs) (c :: ds)

/-- Characters that one letter is among exactly if all are, and a line break is not. -/
structure Plain (p : Char → Bool) : Prop where
  letters : ∀ c d, isLetter c = true → isLetter d = true → p c = p d
  newline : p '\n' = false

namespace Alike

variable {cs ds : List Char}

lemma append (h : Alike cs ds) (text : List Char) : Alike (text ++ cs) (text ++ ds) := by
  induction text with
  | nil => exact h
  | cons c text ih => exact .cons ih

lemma ends {p : Char → Bool} (h : Alike cs ds) (hp : Plain p) (hends : Ends p cs) : Ends p ds := by
  intro d hd
  cases h with
  | nil => cases hd
  | newline =>
    cases hd
    exact hp.newline
  | letters hc hd' =>
    cases hd
    rw [hp.letters _ _ hd' hc]
    exact hends _ rfl
  | cons => exact hends d hd

end Alike

section Characters

variable {c : Char}

lemma isBlank_of_isLetter (h : isLetter c = true) : isBlank c = false := by
  by_contra hblank
  simp only [isBlank, Bool.not_eq_false, Bool.or_eq_true, decide_eq_true_eq] at hblank
  rcases hblank with ((rfl | rfl) | rfl) | rfl <;> revert h <;> decide

lemma ne_quote_of_isLetter (h : isLetter c = true) : c ≠ '"' := by
  rintro rfl
  revert h
  decide

lemma isAlpha_iff : c.isAlpha = true ↔
    ('A'.val ≤ c.val ∧ c.val ≤ 'Z'.val) ∨ 'a'.val ≤ c.val ∧ c.val ≤ 'z'.val := by
  change (decide ('A'.val ≤ c.val ∧ c.val ≤ 'Z'.val) ||
    (decide ('a'.val ≤ c.val) && decide (c.val ≤ 'z'.val))) = true ↔ _
  simp only [Bool.or_eq_true, Bool.and_eq_true, decide_eq_true_eq]

lemma isDigit_of_isLetter (h : isLetter c = true) : c.isDigit = false := by
  by_contra hdigit
  simp only [isLetter, isAlpha_iff, Char.isDigit, Bool.not_eq_false, Bool.or_eq_true,
    Bool.and_eq_true, decide_eq_true_eq, UInt32.le_iff_toNat_le, ge_iff_le] at h hdigit
  rcases h with ((h | h) | rfl) | h
  · exact absurd (Nat.le_trans h.1 hdigit.2) (by decide)
  · exact absurd (Nat.le_trans h.1 hdigit.2) (by decide)
  · revert hdigit
    decide
  · simp only [List.mem_cons, List.not_mem_nil, or_false] at h
    rcases h with rfl | rfl | rfl | rfl | rfl | rfl | rfl <;> revert hdigit <;> decide

lemma plain_isDigit : Plain Char.isDigit where
  letters c d hc hd := by rw [isDigit_of_isLetter hc, isDigit_of_isLetter hd]
  newline := by decide

lemma plain_isWordCharacter : Plain isWordCharacter where
  letters c d hc hd := by simp [isWordCharacter, hc, hd]
  newline := by decide

lemma plain_ne_newline : Plain (· ≠ '\n') where
  letters c d hc hd := by
    have hne : ∀ {a : Char}, isLetter a = true → a ≠ '\n' := by
      rintro _ h rfl
      revert h
      decide
    simp [hne hc, hne hd]
  newline := by decide

end Characters

namespace Fragment

variable {c : Char} {cs rest rest' : List Char} {kind : FragmentKind}

/-- A text up to its closing quote does not depend on what follows. -/
lemma quoted_of_append (h : quoted (cs ++ rest) = ⟨kind, '"' :: cs⟩)
    (hkind : kind ≠ .fault .unterminatedString) : quoted (cs ++ rest') = ⟨kind, '"' :: cs⟩ := by
  unfold quoted at h
  cases hdrop : (cs ++ rest).dropWhile (· ≠ '"') with
  | nil =>
    simp only [hdrop, Fragment.mk.injEq] at h
    exact absurd h.1.symm hkind
  | cons quote after =>
    simp only [hdrop, Fragment.mk.injEq, List.cons_append, List.cons.injEq, true_and] at h
    obtain ⟨rfl, hcs⟩ := h
    have hbody : ∀ c ∈ (cs ++ rest).takeWhile (· ≠ '"'), (decide (c ≠ '"')) = true :=
      fun c hc => by simpa using List.mem_takeWhile_imp hc
    have hquote : decide (quote ≠ '"') = false := by
      have hhead := List.head?_dropWhile_not (fun c => decide (c ≠ '"')) (cs ++ rest)
      rw [hdrop] at hhead
      simpa using hhead
    generalize (cs ++ rest).takeWhile (· ≠ '"') = body at hcs hbody
    subst hcs
    have htake : (body ++ quote :: rest').takeWhile (· ≠ '"') = body := by
      refine takeWhile_append_eq_iff.mpr ⟨hbody, fun c hc => ?_⟩
      cases hc
      exact hquote
    have hdrop' : (body ++ quote :: rest').dropWhile (· ≠ '"') = quote :: rest' := by
      rw [List.dropWhile_append_of_pos hbody, List.dropWhile_cons, hquote]
      rfl
    rw [List.append_assoc, List.singleton_append]
    simp only [quoted, hdrop', htake, List.cons_append]

/-- Where no digits follow a point, none follow one in a text alike. -/
lemma places_eq_nil_of_alike (h : places rest = []) (halike : Alike rest rest') :
    places rest' = [] := by
  unfold places
  split
  · rename_i d ds
    split
    · rename_i hdigit
      exfalso
      cases halike with
      | letters _ hd => exact absurd hd (by decide)
      | @cons _ cs _ halike =>
        have hnot : ∀ e es, cs = e :: es → e.isDigit = false := by
          rintro e es rfl
          by_contra he
          simp [places, he] at h
        cases halike with
        | newline => exact absurd hdigit (by decide)
        | letters _ hd => exact absurd hdigit (by simp [isDigit_of_isLetter hd])
        | cons => exact absurd hdigit (by simp [hnot _ _ rfl])
    · rfl
  · rfl

lemma places_cases (cs : List Char) : places cs = [] ∨
    ∃ d ds, cs = '.' :: d :: ds ∧ d.isDigit = true ∧
      places cs = '.' :: d :: ds.takeWhile Char.isDigit := by
  unfold places
  split
  · rename_i d ds
    split
    · exact .inr ⟨d, ds, rfl, ‹_›, rfl⟩
    · exact .inl rfl
  · exact .inl rfl

lemma places_of_digits {d : Char} {ds : List Char} (hd : d.isDigit = true)
    (hds : ∀ e ∈ ds, e.isDigit = true) (hends : Ends Char.isDigit rest) :
    places ('.' :: d :: (ds ++ rest)) = '.' :: d :: ds := by
  simp only [places, hd, if_true, takeWhile_append_eq_iff.mpr ⟨hds, hends⟩]

/-- Where a number ends, it ends in a text alike. -/
lemma numeral_of_append (h : (numeral (cs ++ rest)).text = cs) (halike : Alike rest rest') :
    (numeral (cs ++ rest')).text = cs := by
  simp only [numeral] at h ⊢
  have hdigits : ∀ c ∈ (cs ++ rest).takeWhile Char.isDigit, c.isDigit = true :=
    fun c hc => List.mem_takeWhile_imp hc
  have hsplit := List.takeWhile_append_dropWhile (p := Char.isDigit) (l := cs ++ rest)
  rcases places_cases ((cs ++ rest).dropWhile Char.isDigit) with hnone | ⟨d, ds, hdrop, hd, hsome⟩
  · -- All of the number stands before a point.
    rw [hnone, List.append_nil] at h
    obtain ⟨hcs, hends⟩ := takeWhile_append_eq_iff.mp h
    have hrest : places rest = [] := by
      rwa [List.dropWhile_append_of_pos hcs, dropWhile_of_ends hends] at hnone
    rw [takeWhile_append_eq_iff.mpr ⟨hcs, halike.ends plain_isDigit hends⟩,
      List.dropWhile_append_of_pos hcs, dropWhile_of_ends (halike.ends plain_isDigit hends),
      places_eq_nil_of_alike hrest halike, List.append_nil]
  · rw [hsome] at h
    rw [hdrop] at hsplit
    generalize (cs ++ rest).takeWhile Char.isDigit = whole at h hdigits hsplit
    obtain ⟨places, hplaces⟩ : ∃ places, ds.takeWhile Char.isDigit = places := ⟨_, rfl⟩
    rw [hplaces] at h
    subst h
    obtain rfl : ds = places ++ rest := by simpa using hsplit
    obtain ⟨hds, hends⟩ := takeWhile_append_eq_iff.mp hplaces
    have hpoint : Ends Char.isDigit ('.' :: d :: (places ++ rest')) := by
      rintro _ ⟨⟩
      decide
    rw [List.append_assoc, List.cons_append, List.cons_append,
      takeWhile_append_eq_iff.mpr ⟨hdigits, hpoint⟩, List.dropWhile_append_of_pos hdigits,
      dropWhile_of_ends hpoint, places_of_digits hd hds (halike.ends plain_isDigit hends)]

lemma numeral_eq_of_append (h : numeral (cs ++ rest) = ⟨kind, cs⟩) (halike : Alike rest rest') :
    numeral (cs ++ rest') = ⟨kind, cs⟩ := by
  have hvalue : ∀ ds, numeral ds =
      ⟨.token (.number (Number.ofLexeme (numeral ds).text)), (numeral ds).text⟩ :=
    fun _ => by simp only [numeral]
  have htext : (numeral (cs ++ rest)).text = cs := by rw [h]
  rw [hvalue, htext] at h
  rw [hvalue, numeral_of_append htext halike, h]

/-- A symbol of two characters ends with an equals sign. -/
lemma eq_of_ofSpelling? {c d : Char} {s : Symbol}
    (h : Symbol.ofSpelling? (String.ofList [c, d]) = some s) : d = '=' := by
  have hspelling := congrArg String.toList (Symbol.ofSpelling?_eq_some_iff.mp h)
  rw [String.toList_ofList] at hspelling
  cases s <;> simp [Symbol.spelling] at hspelling <;> exact hspelling.2.symm

lemma symbolic_of_none {cs ds : List Char}
    (h : (cs.head?.bind fun d => Symbol.ofSpelling? (String.ofList [c, d])) = none)
    (h' : (ds.head?.bind fun d => Symbol.ofSpelling? (String.ofList [c, d])) = none) :
    symbolic c ds = symbolic c cs := by
  simp only [symbolic, h, h']

/-- A symbol does not depend on what follows, as long as that does not go on with it. -/
lemma symbolic_of_append (h : symbolic c (cs ++ rest) = ⟨kind, c :: cs⟩)
    (halike : Alike rest rest') : symbolic c (cs ++ rest') = ⟨kind, c :: cs⟩ := by
  cases cs with
  | cons d cs => exact h
  | nil =>
    have hnone : (rest.head?.bind fun d => Symbol.ofSpelling? (String.ofList [c, d])) = none := by
      cases rest with
      | nil => rfl
      | cons d rest =>
        cases hs : Symbol.ofSpelling? (String.ofList [c, d]) with
        | none => exact hs
        | some s =>
          simp only [symbolic, List.nil_append, List.head?_cons, Option.bind_some, hs] at h
          simp at h
    refine (symbolic_of_none hnone ?_).trans h
    have hother : ∀ d, d ≠ '=' → Symbol.ofSpelling? (String.ofList [c, d]) = none := by
      intro d hd
      by_contra hsome
      obtain ⟨s, hs⟩ := Option.ne_none_iff_exists'.mp hsome
      exact hd (eq_of_ofSpelling? hs)
    cases halike with
    | nil => rfl
    | newline => exact hother _ (by decide)
    | letters _ hd =>
      refine hother _ ?_
      rintro rfl
      exact absurd hd (by decide)
    | cons => exact hnone

/-- Where a comment starts is not changed by a text alike. -/
lemma head?_slash_of_alike (halike : Alike rest rest') (h : rest'.head? = some '/') :
    rest.head? = some '/' := by
  cases halike with
  | nil => exact h
  | newline => cases h
  | letters _ hd =>
    cases h
    exact absurd hd (by decide)
  | cons => exact h

/-- The text after a fragment counts only as far as it is alike. -/
theorem starting_of_append (h : starting c (cs ++ rest) = ⟨kind, c :: cs⟩)
    (hkind : kind ≠ .fault .unterminatedString) (halike : Alike rest rest') :
    starting c (cs ++ rest') = ⟨kind, c :: cs⟩ := by
  unfold starting at h ⊢
  split at h
  · rw [if_pos ‹_›]
    exact h
  rename_i hblank
  rw [if_neg hblank]
  split at h
  · rename_i hquote
    rw [if_pos hquote]
    subst hquote
    exact quoted_of_append h hkind
  rename_i hquote
  rw [if_neg hquote]
  split at h
  · rename_i hdigit
    rw [if_pos hdigit]
    rw [← List.cons_append] at h ⊢
    exact numeral_eq_of_append h halike
  rename_i hdigit
  rw [if_neg hdigit]
  split at h
  · rename_i hletter
    rw [if_pos hletter]
    simp only [Fragment.mk.injEq, List.cons.injEq, true_and] at h
    obtain ⟨hcs, hends⟩ := takeWhile_append_eq_iff.mp h.2
    have htake := takeWhile_append_eq_iff.mpr ⟨hcs, halike.ends plain_isWordCharacter hends⟩
    simp only [htake]
    rw [h.2] at h
    rw [h.1]
  rename_i hletter
  rw [if_neg hletter]
  split at h
  · rename_i hcomment
    simp only [Fragment.mk.injEq, List.cons.injEq, true_and] at h
    obtain ⟨hcs, hends⟩ := takeWhile_append_eq_iff.mp h.2
    have htake := takeWhile_append_eq_iff.mpr ⟨hcs, halike.ends plain_ne_newline hends⟩
    have hhead : (cs ++ rest').head? = some '/' := by
      cases cs with
      | nil => exact absurd (hends '/' hcomment.2) (by decide)
      | cons d cs => exact hcomment.2
    rw [if_pos ⟨hcomment.1, hhead⟩, htake, h.1]
  · rename_i hcomment
    rw [if_neg]
    · exact symbolic_of_append h halike
    · rintro ⟨hslash, hhead⟩
      refine hcomment ⟨hslash, ?_⟩
      cases cs with
      | nil => exact head?_slash_of_alike halike hhead
      | cons d cs => exact hhead

/-- Fragments that a text falls into which ends with the given rest. -/
def Cut : List Fragment → List Char → Prop
  | [], _ => True
  | fragment :: fragments, rest =>
    (∃ c cs, fragment.text = c :: cs ∧
      starting c (cs ++ (fragments.flatMap Fragment.text ++ rest)) = fragment) ∧
      Cut fragments rest

lemma split_of_cut {fragments : List Fragment} (h : Cut fragments rest) :
    split (fragments.flatMap Fragment.text ++ rest) = fragments ++ split rest := by
  induction fragments with
  | nil => rfl
  | cons fragment fragments ih =>
    obtain ⟨⟨c, cs, htext, hstarting⟩, hrest⟩ := h
    rw [List.flatMap_cons, htext, List.append_assoc, List.cons_append, split_cons, hstarting, htext,
      ← List.cons_append, List.drop_left, ih hrest, List.cons_append]

lemma cut_split (cs : List Char) : Cut (split cs) [] := by
  generalize hn : cs.length = n
  induction n using Nat.strongRecOn generalizing cs with
  | ind n ih =>
    cases cs with
    | nil => trivial
    | cons c cs =>
      obtain ⟨rest, hrest⟩ := starting_isPrefix c cs
      obtain ⟨d, ds, htext⟩ := List.exists_cons_of_ne_nil (starting_ne_nil c cs)
      rw [htext, List.cons_append, List.cons.injEq] at hrest
      obtain ⟨rfl, rfl⟩ := hrest
      rw [split_cons, htext, ← List.cons_append, List.drop_left]
      refine ⟨⟨d, ds, htext, ?_⟩, ih rest.length ?_ rest rfl⟩
      · rw [flatMap_text_split, List.append_nil]
      · rw [← hn, List.length_cons, List.length_append]
        omega

lemma Cut.of_alike {fragments : List Fragment} (h : Cut fragments rest)
    (hfragments : ∀ f ∈ fragments, f.kind ≠ .fault .unterminatedString)
    (halike : Alike rest rest') : Cut fragments rest' := by
  induction fragments with
  | nil => trivial
  | cons fragment fragments ih =>
    obtain ⟨⟨c, cs, htext, hstarting⟩, hrest⟩ := h
    obtain ⟨kind, text⟩ := fragment
    subst htext
    refine ⟨⟨c, cs, rfl, ?_⟩, ih hrest fun f hf => hfragments f (List.mem_cons_of_mem _ hf)⟩
    exact starting_of_append hstarting (hfragments _ (List.mem_cons_self ..)) (halike.append _)

/-- A text after a line break leaves the fragments before it as they are. -/
theorem split_append_newline {cs : List Char}
    (h : ∀ f ∈ split cs, f.kind ≠ .fault .unterminatedString) (ds : List Char) :
    split (cs ++ '\n' :: ds) = split cs ++ ⟨.blank, ['\n']⟩ :: split ds := by
  have hcut := split_of_cut ((cut_split cs).of_alike h (Alike.newline : Alike [] ('\n' :: ds)))
  rwa [flatMap_text_split] at hcut

end Fragment

end GermanLox
