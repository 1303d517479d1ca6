import GermanLox.Proofs.Source.Respelled

/-!
# Sources one after another

A source with line breaks before it has the same tokens, further down. Two sources with a line break
between them have the tokens of the first and then those of the second, further down by the lines of
the first.
-/

namespace GermanLox

/-- The token so many lines further down. -/
def Token.lower (count : Nat) (t : Token) : Token :=
  { t with line := t.line + count }

namespace Fragment

/-- The tokens of fragments, the first of which starts on a line. -/
def tokensFrom (line : Nat) : List Fragment → List Token
  | [] => []
  | fragment :: fragments =>
    ((Item.ofFragment? (line + fragment.text.count '\n') fragment).bind Item.token?).toList ++
      tokensFrom (line + fragment.text.count '\n') fragments

lemma exists_of_mem_tokensFrom {line : Nat} {fragments : List Fragment} {t : Token}
    (h : t ∈ tokensFrom line fragments) : ∃ f ∈ fragments, f.kind = .token t.kind := by
  induction fragments generalizing line with
  | nil => cases h
  | cons fragment fragments ih =>
    rcases List.mem_append.mp h with h | h
    · obtain ⟨hkind, -⟩ := Item.ofFragment?_eq_token_iff.mp (Item.mem_bind_token?.mp h)
      exact ⟨fragment, List.mem_cons_self .., hkind⟩
    · obtain ⟨f, hf, hkind⟩ := ih h
      exact ⟨f, List.mem_cons_of_mem _ hf, hkind⟩

lemma tokens_place (line : Nat) (fragments : List Fragment) :
    ∃ last, (Item.place line fragments).filterMap Item.token? =
      tokensFrom line fragments ++ [⟨.eof, "", last⟩] := by
  induction fragments generalizing line with
  | nil => exact ⟨line, rfl⟩
  | cons fragment fragments ih =>
    obtain ⟨last, hlast⟩ := ih (line + fragment.text.count '\n')
    refine ⟨last, ?_⟩
    rw [Item.place, List.filterMap_append, hlast, tokensFrom, List.append_assoc]
    congr 1
    cases Item.ofFragment? (line + fragment.text.count '\n') fragment with
    | none => rfl
    | some item => cases item <;> rfl

lemma tokensFrom_append (line : Nat) (fragments others : List Fragment) :
    tokensFrom line (fragments ++ others) = tokensFrom line fragments ++
      tokensFrom (line + (fragments.flatMap Fragment.text).count '\n') others := by
  induction fragments generalizing line with
  | nil => rfl
  | cons fragment fragments ih =>
    rw [List.cons_append, tokensFrom, tokensFrom, ih, List.flatMap_cons, List.count_append,
      List.append_assoc, Nat.add_assoc]

lemma tokensFrom_add (line count : Nat) (fragments : List Fragment) :
    tokensFrom (line + count) fragments = (tokensFrom line fragments).map (Token.lower count) := by
  induction fragments generalizing line with
  | nil => rfl
  | cons fragment fragments ih =>
    obtain ⟨kind, text⟩ := fragment
    rw [tokensFrom, tokensFrom, List.map_append, Nat.add_right_comm, ih]
    congr 1
    cases kind <;> rfl

/-- Line breaks are no tokens. -/
lemma tokensFrom_breaks (line count : Nat) (fragments : List Fragment) :
    tokensFrom line (List.replicate count ⟨.blank, ['\n']⟩ ++ fragments) =
      tokensFrom (line + count) fragments := by
  induction count generalizing line with
  | zero => rfl
  | succ count ih =>
    refine (ih (line + 1)).trans ?_
    rw [Nat.add_assoc, Nat.add_comm 1 count]

end Fragment

namespace Source

/-- A source after so many line breaks. -/
def lower (count : Nat) (source : String) : String :=
  String.ofList (List.replicate count '\n' ++ source.toList)

lemma lower_zero (source : String) : lower 0 source = source :=
  String.ofList_toList

/-- Two sources with a line break between them. -/
def join (source₁ source₂ : String) : String :=
  source₁ ++ "\n" ++ source₂

lemma tokens_eq_tokensFrom (source : String) :
    tokens source = Fragment.tokensFrom 1 (Fragment.split source.toList) := by
  obtain ⟨last, hlast⟩ := Fragment.tokens_place 1 (Fragment.split source.toList)
  have hkinds : ∀ t ∈ Fragment.tokensFrom 1 (Fragment.split source.toList),
      decide (t.kind ≠ .eof) = true := by
    intro t ht
    obtain ⟨f, hf, hkind⟩ := Fragment.exists_of_mem_tokensFrom ht
    refine decide_eq_true fun heof => Fragment.kind_ne_eof_of_mem_split hf ?_
    rw [hkind, heof]
  rw [tokens, scan, hlast, List.takeWhile_append_of_pos hkinds,
    List.takeWhile_cons_of_neg (by simp), List.append_nil]

section Lower

variable (count : Nat) (source : String)

lemma split_lower : Fragment.split (lower count source).toList =
    List.replicate count ⟨.blank, ['\n']⟩ ++ Fragment.split source.toList := by
  rw [lower, String.toList_ofList]
  induction count with
  | zero => rfl
  | succ count ih =>
    have hsplit := @Fragment.split_append_newline [] (fun _ h => nomatch h)
      (List.replicate count '\n' ++ source.toList)
    rw [ih] at hsplit
    exact hsplit

/-- Line breaks before a source move its tokens down. -/
lemma tokens_lower : tokens (lower count source) = (tokens source).map (Token.lower count) := by
  rw [tokens_eq_tokensFrom, tokens_eq_tokensFrom, split_lower, Fragment.tokensFrom_breaks,
    Fragment.tokensFrom_add]

lemma faultless_lower (h : (scan source).filterMap Item.diagnostic? = []) :
    (scan (lower count source)).filterMap Item.diagnostic? = [] := by
  rw [scan, Item.diagnostics_place_eq_nil_iff, split_lower]
  intro f hf
  rcases List.mem_append.mp hf with hf | hf
  · obtain ⟨-, rfl⟩ := List.mem_replicate.mp hf
    simp
  · exact Item.diagnostics_place_eq_nil_iff.mp h f hf

end Lower

section Join

variable {source₁ : String} (source₂ : String)
  (h : (scan source₁).filterMap Item.diagnostic? = [])

include h

lemma split_join : Fragment.split (join source₁ source₂).toList =
    Fragment.split source₁.toList ++ ⟨.blank, ['\n']⟩ :: Fragment.split source₂.toList := by
  have hsplit := @Fragment.split_append_newline source₁.toList
    (fun f hf => Item.diagnostics_place_eq_nil_iff.mp h f hf _) source₂.toList
  rw [← hsplit, join]
  simp

/-- The tokens of the second source are further down by the lines of the first. -/
lemma tokens_join : tokens (join source₁ source₂) = tokens source₁ ++
    (tokens source₂).map (Token.lower (1 + source₁.toList.count '\n')) := by
  rw [tokens_eq_tokensFrom, tokens_eq_tokensFrom, tokens_eq_tokensFrom, split_join source₂ h,
    Fragment.tokensFrom_append, ← Fragment.tokensFrom_add, Fragment.flatMap_text_split]
  congr 1
  exact (Fragment.tokensFrom_breaks _ 1 _).trans (congrArg (Fragment.tokensFrom · _) (by omega))

lemma faultless_join (h₂ : (scan source₂).filterMap Item.diagnostic? = []) :
    (scan (join source₁ source₂)).filterMap Item.diagnostic? = [] := by
  rw [scan, Item.diagnostics_place_eq_nil_iff, split_join source₂ h]
  intro f hf
  rcases List.mem_append.mp hf with hf | hf
  · exact Item.diagnostics_place_eq_nil_iff.mp h f hf
  · rcases List.mem_cons.mp hf with rfl | hf
    · simp
    · exact Item.diagnostics_place_eq_nil_iff.mp h₂ f hf

end Join

end Source

end GermanLox
