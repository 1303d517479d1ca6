import GermanLox.Diagnostic
import GermanLox.Proofs.Source.Places

/-!
# Sources with other names in some places

Another name is written in some places of a source where names stand. The text that comes out has
the same tokens on the same lines, but for the new name, and has no fault if the first one has none.
-/

namespace GermanLox

/-- Only fragments that are no lexeme are reported. -/
lemma Item.diagnostics_place_eq_nil_iff {line : Nat} {fragments : List Fragment} :
    (Item.place line fragments).filterMap Item.diagnostic? = [] ↔
      ∀ f ∈ fragments, ∀ cause, f.kind ≠ .fault cause := by
  induction fragments generalizing line with
  | nil => simp [Item.place, Item.diagnostic?]
  | cons fragment fragments ih =>
    obtain ⟨kind, text⟩ := fragment
    rw [Item.place, List.filterMap_append, List.append_eq_nil_iff, ih, List.forall_mem_cons]
    refine and_congr_left fun _ => ?_
    cases kind with
    | fault cause => simp [Item.ofFragment?, Item.diagnostic?]
    | _ => simp [Item.ofFragment?, Item.diagnostic?]

/-- Words do not break lines. -/
lemma count_newline_of_word {c : Char} {cs : List Char} (hc : isLetter c = true)
    (hcs : ∀ d ∈ cs, isWordCharacter d = true) : (c :: cs).count '\n' = 0 := by
  refine List.count_eq_zero.mpr fun hmem => ?_
  have hword : isWordCharacter '\n' = true := by
    rcases List.mem_cons.mp hmem with rfl | hmem
    · simp [isWordCharacter, hc]
    · exact hcs _ hmem
  cases hword

namespace Fragment

/-- In the places, counted from the given one, there are names. -/
def NamesIn (places : Nat → Bool) (place : Nat) (fragments : List Fragment) : Prop :=
  ∀ i f, fragments[i]? = some f → places (place + i) = true → f.kind = .token .identifier

lemma NamesIn.tail {places : Nat → Bool} {place : Nat} {fragment : Fragment}
    {fragments : List Fragment} (h : NamesIn places place (fragment :: fragments)) :
    NamesIn places (place + 1) fragments := by
  intro i f hf hi
  exact h (i + 1) f hf (by rwa [Nat.add_assoc, Nat.add_comm 1 i] at hi)

lemma respelled_respell {places : Nat → Bool} {name : List Char} {place : Nat}
    {fragments : List Fragment} (h : NamesIn places place fragments) :
    List.Forall₂ (Respelled name) fragments (respell places name place fragments) := by
  induction fragments generalizing place with
  | nil => exact .nil
  | cons fragment fragments ih =>
    refine .cons ?_ (ih h.tail)
    split
    · rename_i hplace
      obtain ⟨kind, text⟩ := fragment
      obtain rfl : kind = .token .identifier := h 0 _ rfl hplace
      exact .anew text
    · exact .same fragment

lemma kind_of_mem_respell {places : Nat → Bool} {name : List Char} {place : Nat}
    {fragments : List Fragment} {f : Fragment} (h : f ∈ respell places name place fragments) :
    ∃ g ∈ fragments, f.kind = g.kind := by
  induction fragments generalizing place with
  | nil => cases h
  | cons fragment fragments ih =>
    rcases List.mem_cons.mp h with rfl | h
    · refine ⟨fragment, List.mem_cons_self .., ?_⟩
      split <;> rfl
    · obtain ⟨g, hg, hkind⟩ := ih h
      exact ⟨g, List.mem_cons_of_mem _ hg, hkind⟩

/-- A name has no line break. -/
lemma count_newline_of_mem_split {cs : List Char} {f : Fragment} (h : f ∈ split cs)
    (hkind : f.kind = .token .identifier) : f.text.count '\n' = 0 := by
  obtain ⟨c, cs, rfl⟩ := exists_starting h
  obtain ⟨rest, hrest⟩ := starting_isPrefix c cs
  obtain ⟨d, ds, htext⟩ := List.exists_cons_of_ne_nil (starting_ne_nil c cs)
  rw [htext, List.cons_append, List.cons.injEq] at hrest
  obtain ⟨rfl, rfl⟩ := hrest
  have hstarting : starting d (ds ++ rest) = ⟨.token .identifier, d :: ds⟩ := by
    rw [← hkind, ← htext]
  obtain ⟨hletter, hword, -⟩ := starting_identifier hstarting
  rw [htext, count_newline_of_word hletter hword]

end Fragment

namespace Source

/-- The source with another name in some places. -/
def respell (source : String) (places : Nat → Bool) (name : List Char) : String :=
  String.ofList ((Fragment.respell places name 0 (Fragment.split source.toList)).flatMap
    Fragment.text)

variable {source : String} {places : Nat → Bool} {name : List Char}

lemma namesIn_split
    (h : ∀ place, places place = true →
      ∃ t ∈ placed source, t.line = place ∧ t.kind = .identifier) :
    Fragment.NamesIn places 0 (Fragment.split source.toList) := by
  intro i f hf hi
  obtain ⟨t, ht, hline, hkind⟩ := h _ hi
  obtain ⟨j, text, hj, hfragment⟩ := Fragment.exists_getElem?_of_mem_placed ht
  obtain rfl : i = j := by omega
  rw [hfragment] at hf
  obtain rfl := Option.some.inj hf
  rw [hkind]

section Respelled

variable (hname : IsName name) (hplaces : Fragment.NamesIn places 0 (Fragment.split source.toList))
  (hfaultless : (scan source).filterMap Item.diagnostic? = [])

include hname hplaces hfaultless

lemma split_respell : Fragment.split (respell source places name).toList =
    Fragment.respell places name 0 (Fragment.split source.toList) := by
  have hcut : Fragment.Cut (Fragment.respell places name 0 (Fragment.split source.toList)) [] :=
    (Fragment.cut_split _).respell hname (Fragment.respelled_respell hplaces) fun f hf =>
      Item.diagnostics_place_eq_nil_iff.mp hfaultless f hf _
  have hsplit := Fragment.split_of_cut hcut
  rw [List.append_nil] at hsplit
  rw [respell, String.toList_ofList, hsplit]
  exact List.append_nil _

lemma faultless_respell :
    (scan (respell source places name)).filterMap Item.diagnostic? = [] := by
  rw [scan, split_respell hname hplaces hfaultless, Item.diagnostics_place_eq_nil_iff]
  intro f hf
  obtain ⟨g, hg, hkind⟩ := Fragment.kind_of_mem_respell hf
  rw [hkind]
  exact Item.diagnostics_place_eq_nil_iff.mp hfaultless g hg

lemma tokens_respell : tokens (respell source places name) =
    (placed source).map (Fragment.written places name (lineOf source)) := by
  have hcount : ∀ i f, (Fragment.split source.toList)[i]? = some f → places (0 + i) = true →
      name.count '\n' = f.text.count '\n' := by
    intro i f hf hi
    obtain ⟨c, cs, hword, hc, hcs⟩ := hname.word
    rw [hword, count_newline_of_word hc hcs, Fragment.count_newline_of_mem_split
      (List.mem_of_getElem? hf) (hplaces i f hf hi)]
  obtain ⟨last, hlast⟩ := Fragment.tokens_respell (linesFrom source) hcount
  rw [← split_respell hname hplaces hfaultless] at hlast
  exact tokens_of_scan (fun _ => rfl) rfl hlast

end Respelled

end Source

end GermanLox
