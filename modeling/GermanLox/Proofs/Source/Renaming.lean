import GermanLox.Proofs.Scope.Occurrences
import GermanLox.Proofs.Source.Cutting
import GermanLox.Proofs.Source.Tokens

/-!
# Renaming in a source

A name of a source is known by the place of its fragment. To rename a local variable is to write
another name in the places of the names that stand for it; the text that comes out falls into
fragments in the same places, on the same lines.
-/

namespace GermanLox

/-- A text that is a name. -/
structure IsName (name : List Char) : Prop where
  word : ∃ c cs, name = c :: cs ∧ isLetter c = true ∧ ∀ d ∈ cs, isWordCharacter d = true
  free : ∀ k : Keyword, String.ofList name ≠ k.spelling

namespace Fragment

lemma starting_of_name {name rest : List Char} (h : IsName name)
    (hends : Ends isWordCharacter rest) :
    ∃ c cs, name = c :: cs ∧ starting c (cs ++ rest) = ⟨.token .identifier, name⟩ := by
  obtain ⟨c, cs, rfl, hc, hcs⟩ := h.word
  have hkind : wordKind (c :: cs) = .identifier := by
    unfold wordKind
    cases hword : Keyword.ofSpelling? (String.ofList (c :: cs)) with
    | none => rfl
    | some k => exact absurd (Keyword.ofSpelling?_eq_some_iff.mp hword).symm (h.free k)
  refine ⟨c, cs, rfl, ?_⟩
  unfold starting
  rw [if_neg (by simp [isBlank_of_isLetter hc]), if_neg (ne_quote_of_isLetter hc),
    if_neg (by simp [isDigit_of_isLetter hc]), if_pos hc,
    takeWhile_append_eq_iff.mpr ⟨hcs, hends⟩]
  simp only [hkind]

/-- A name starts with a letter and does not go on. -/
lemma starting_identifier {c : Char} {cs rest : List Char}
    (h : starting c (cs ++ rest) = ⟨.token .identifier, c :: cs⟩) :
    isLetter c = true ∧ (∀ d ∈ cs, isWordCharacter d = true) ∧ Ends isWordCharacter rest := by
  unfold starting at h
  split at h
  · cases h
  split at h
  · unfold quoted at h
    split at h <;> cases h
  split at h
  · cases h
  split at h
  · rename_i hletter
    simp only [Fragment.mk.injEq, List.cons.injEq, true_and] at h
    exact ⟨hletter, takeWhile_append_eq_iff.mp h.2⟩
  split at h
  · cases h
  · unfold symbolic at h
    split at h
    · cases h
    · split at h <;> cases h

/-- A name is spelled anew; all else is as it was. -/
inductive Respelled (name : List Char) : Fragment → Fragment → Prop
  | same (f : Fragment) : Respelled name f f
  | anew (text : List Char) : Respelled name ⟨.token .identifier, text⟩ ⟨.token .identifier, name⟩

lemma alike_refl (cs : List Char) : Alike cs cs := by
  induction cs with
  | nil => exact .nil
  | cons c cs ih => exact .cons ih

variable {name rest : List Char} {fragments fragments' : List Fragment}

lemma alike_of_respelled (hname : IsName name)
    (h : List.Forall₂ (Respelled name) fragments fragments') (hcut : Cut fragments rest) :
    Alike (fragments.flatMap Fragment.text ++ rest) (fragments'.flatMap Fragment.text ++ rest) := by
  induction h with
  | nil => exact alike_refl _
  | cons hf _ ih =>
    obtain ⟨⟨c, cs, htext, hstarting⟩, hcut⟩ := hcut
    cases hf with
    | same f =>
      rw [List.flatMap_cons, List.flatMap_cons, List.append_assoc, List.append_assoc]
      exact (ih hcut).append _
    | anew text =>
      subst htext
      obtain ⟨d, ds, rfl, hd, -⟩ := hname.word
      exact .letters (starting_identifier hstarting).1 hd

/-- Fragments stay fragments if names are spelled anew. -/
lemma Cut.respell (hname : IsName name)
    (h : List.Forall₂ (Respelled name) fragments fragments') (hcut : Cut fragments rest)
    (hfragments : ∀ f ∈ fragments, f.kind ≠ .fault .unterminatedString) :
    Cut fragments' rest := by
  induction h with
  | nil => trivial
  | @cons f _ _ _ hf hfs ih =>
    have hrest := hcut.2
    have halike := alike_of_respelled hname hfs hrest
    refine ⟨?_, ih hrest fun f hf => hfragments f (List.mem_cons_of_mem _ hf)⟩
    obtain ⟨⟨c, cs, htext, hstarting⟩, -⟩ := hcut
    obtain ⟨kind, text⟩ := f
    cases hf with
    | same =>
      subst htext
      exact ⟨c, cs, rfl, starting_of_append hstarting (hfragments _ (List.mem_cons_self ..)) halike⟩
    | anew text =>
      subst htext
      exact starting_of_name hname
        (halike.ends plain_isWordCharacter (starting_identifier hstarting).2.2)

/-- Another name in some of the places, counted from the given one. -/
def respell (places : Nat → Bool) (name : List Char) (place : Nat) :
    List Fragment → List Fragment
  | [] => []
  | fragment :: fragments =>
    (if places place then ⟨fragment.kind, name⟩ else fragment) ::
      respell places name (place + 1) fragments

/-- The tokens among fragments, each with its place for a line. -/
def placed (place : Nat) : List Fragment → List Token
  | [] => []
  | fragment :: fragments =>
    ((Item.ofFragment? place fragment).bind Item.token?).toList ++ placed (place + 1) fragments

/-- The lines that fragments end on, the first of which starts on a line. -/
def LinesFrom (line place : Nat) (fragments : List Fragment) (lines : Nat → Nat) : Prop :=
  ∀ i, lines (place + i) = line + ((fragments.take (i + 1)).flatMap Fragment.text).count '\n'

lemma LinesFrom.head {line place : Nat} {fragment : Fragment} {lines : Nat → Nat}
    (h : LinesFrom line place (fragment :: fragments) lines) :
    lines place = line + fragment.text.count '\n' := by
  simpa using h 0

lemma LinesFrom.tail {line place : Nat} {fragment : Fragment} {lines : Nat → Nat}
    (h : LinesFrom line place (fragment :: fragments) lines) :
    LinesFrom (line + fragment.text.count '\n') (place + 1) fragments lines := by
  intro i
  have hi := h (i + 1)
  rw [List.take_succ_cons, List.flatMap_cons, List.count_append] at hi
  rw [Nat.add_assoc, Nat.add_comm 1 i, hi, Nat.add_assoc]

/-- A token of a source, with the name that is written in its place and the line of the place. -/
def written (places : Nat → Bool) (name : List Char) (lines : Nat → Nat) (t : Token) : Token :=
  ⟨t.kind, if places t.line then String.ofList name else t.lexeme, lines t.line⟩

lemma token?_written (places : Nat → Bool) (name : List Char) {lines : Nat → Nat} {line place : Nat}
    (hline : lines place = line) (fragment : Fragment) :
    (Item.ofFragment? line
          (if places place then ⟨fragment.kind, name⟩ else fragment)).toList.filterMap
        Item.token? =
      ((Item.ofFragment? place fragment).bind Item.token?).toList.map
        (written places name lines) := by
  obtain ⟨kind, text⟩ := fragment
  cases kind with
  | token kind =>
    by_cases hplace : places place = true
    · simp [Item.ofFragment?, Item.token?, written, hplace, hline]
    · simp [Item.ofFragment?, Item.token?, written, hplace, hline]
  | _ => split <;> rfl

/-- Tokens in a text where some names are spelled anew. -/
lemma tokens_respell {places : Nat → Bool} {name : List Char} {lines : Nat → Nat} {line place : Nat}
    (hlines : LinesFrom line place fragments lines)
    (hname : ∀ i f, fragments[i]? = some f → places (place + i) = true →
      name.count '\n' = f.text.count '\n') :
    ∃ last, (Item.place line (respell places name place fragments)).filterMap Item.token? =
      (placed place fragments).map (written places name lines) ++ [⟨.eof, "", last⟩] := by
  induction fragments generalizing line place with
  | nil => exact ⟨line, rfl⟩
  | cons fragment fragments ih =>
    have hcount : (if places place then ⟨fragment.kind, name⟩ else fragment : Fragment).text.count
        '\n' = fragment.text.count '\n' := by
      split
      · exact hname 0 fragment rfl ‹_›
      · rfl
    obtain ⟨last, hlast⟩ := ih hlines.tail fun i f hf hi =>
      hname (i + 1) f hf (by rwa [Nat.add_assoc, Nat.add_comm 1 i] at hi)
    refine ⟨last, ?_⟩
    rw [respell, Item.place, hcount, List.filterMap_append, hlast, placed, List.map_append,
      token?_written places name hlines.head, List.append_assoc]

end Fragment

end GermanLox
