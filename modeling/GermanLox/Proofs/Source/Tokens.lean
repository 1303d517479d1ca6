import GermanLox.Proofs.Scope.Formed
import Mathlib.Data.List.TakeWhile

/-!
# Tokens of a source

What scanning guarantees of tokens: reserved words are spelled as such, and names are not.
-/

namespace GermanLox

/-- What a kind asks of the text that it is given to. -/
def TokenKind.Suits (kind : TokenKind) (text : List Char) : Prop :=
  (∀ k, kind = .keyword k → String.ofList text = k.spelling) ∧
    (kind = .identifier → ∀ k : Keyword, String.ofList text ≠ k.spelling)

namespace Fragment

lemma wordKind_suits (word : List Char) : (wordKind word).Suits word := by
  unfold wordKind
  cases hword : Keyword.ofSpelling? (String.ofList word) with
  | some k =>
    refine ⟨fun k' hk => ?_, fun hidentifier => by cases hidentifier⟩
    obtain rfl : k = k' := by simpa using hk
    exact (Keyword.ofSpelling?_eq_some_iff.mp hword).symm
  | none =>
    refine ⟨fun k hk => (by cases hk), fun _ k hk => ?_⟩
    rw [Keyword.ofSpelling?_eq_some_iff.mpr hk.symm] at hword
    cases hword

/-- Only words can be reserved, or names. -/
lemma starting_suits {c : Char} {cs : List Char} {kind : TokenKind}
    (h : (starting c cs).kind = .token kind) : kind.Suits (starting c cs).text := by
  have hother : ∀ {kind : TokenKind} (text : List Char), (∀ k, kind ≠ .keyword k) →
      kind ≠ .identifier → kind.Suits text :=
    fun text hk hi => ⟨fun k heq => absurd heq (hk k), fun heq => absurd heq hi⟩
  revert h
  unfold starting
  split
  · intro h; cases h
  split
  · unfold quoted
    split
    · intro h; cases h
    · intro h
      cases h
      exact hother _ (by simp) (by simp)
  split
  · intro h
    cases h
    exact hother _ (by simp) (by simp)
  split
  · intro h
    cases h
    exact wordKind_suits _
  split
  · intro h; cases h
  · unfold symbolic
    split
    · intro h
      cases h
      exact hother _ (by simp) (by simp)
    · split
      · intro h
        cases h
        exact hother _ (by simp) (by simp)
      · intro h; cases h

/-- Every fragment of a text starts some rest of it. -/
lemma exists_starting {cs : List Char} {fragment : Fragment} (h : fragment ∈ split cs) :
    ∃ d ds, fragment = starting d ds := by
  generalize hn : cs.length = n
  induction n using Nat.strongRecOn generalizing cs with
  | ind n ih =>
    cases cs with
    | nil => cases h
    | cons c cs =>
      rw [split_cons] at h
      rcases List.mem_cons.mp h with rfl | h
      · exact ⟨c, cs, rfl⟩
      · have hpos := List.length_pos_iff.mpr (starting_ne_nil c cs)
        refine ih _ ?_ h rfl
        rw [List.length_drop, ← hn, List.length_cons]
        omega

end Fragment

/-- The one token that a fragment can give. -/
lemma Item.ofFragment?_eq_token_iff {line : Nat} {fragment : Fragment} {t : Token} :
    Item.ofFragment? line fragment = some (.token t) ↔
      fragment.kind = .token t.kind ∧ t.lexeme = String.ofList fragment.text ∧ t.line = line := by
  obtain ⟨kind, text⟩ := fragment
  cases kind with
  | token kind =>
    simp only [ofFragment?, Option.some.injEq, Item.token.injEq, FragmentKind.token.injEq]
    constructor
    · rintro rfl
      exact ⟨rfl, rfl, rfl⟩
    · rintro ⟨rfl, hlexeme, hline⟩
      rw [← hlexeme, ← hline]
  | _ => simp [ofFragment?]

lemma Item.mem_bind_token? {item : Option Item} {t : Token} :
    t ∈ (item.bind Item.token?).toList ↔ item = some (.token t) := by
  cases item with
  | none => simp
  | some item => cases item <;> simp [token?, eq_comm]

/-- A token among the items of fragments is one of them, or the end. -/
lemma Item.exists_fragment {fragments : List Fragment} {line : Nat} {t : Token}
    (h : Item.token t ∈ Item.place line fragments) :
    t.kind = .eof ∨ ∃ fragment ∈ fragments, fragment.kind = .token t.kind ∧
      t.lexeme = String.ofList fragment.text := by
  induction fragments generalizing line with
  | nil =>
    obtain rfl : t = _ := by simpa [Item.place] using h
    exact .inl rfl
  | cons fragment rest ih =>
    rw [Item.place] at h
    rcases List.mem_append.mp h with h | h
    · obtain ⟨hkind, hlexeme, -⟩ := Item.ofFragment?_eq_token_iff.mp (Option.mem_toList.mp h)
      exact .inr ⟨fragment, List.mem_cons_self .., hkind, hlexeme⟩
    · rcases ih h with h | ⟨other, hother, hrest⟩
      · exact .inl h
      · exact .inr ⟨other, List.mem_cons_of_mem _ hother, hrest⟩

/-- The tokens of a source before its end. -/
def Source.tokens (source : String) : List Token :=
  ((scan source).filterMap Item.token?).takeWhile (·.kind ≠ .eof)

lemma Source.mem_tokens {source : String} {t : Token} (h : t ∈ Source.tokens source) :
    t.kind ≠ .eof ∧ ∃ fragment ∈ Fragment.split source.toList, fragment.kind = .token t.kind ∧
      t.lexeme = String.ofList fragment.text := by
  have hkind : t.kind ≠ .eof := by simpa using List.mem_takeWhile_imp h
  obtain ⟨item, hitem, htoken⟩ := List.mem_filterMap.mp ((List.takeWhile_subset _) h)
  obtain rfl : item = .token t := by
    cases item with
    | token u => exact congrArg _ (Option.some.inj htoken)
    | fault => cases htoken
  refine ⟨hkind, ?_⟩
  rcases Item.exists_fragment hitem with h | h
  · exact absurd h hkind
  · exact h

lemma Source.proper_tokens (source : String) : ∀ t ∈ Source.tokens source, t.Proper := by
  intro t ht
  obtain ⟨-, fragment, hfragment, hkind, hlexeme⟩ := Source.mem_tokens ht
  obtain ⟨c, cs, rfl⟩ := Fragment.exists_starting hfragment
  obtain ⟨hkeyword, hname⟩ := Fragment.starting_suits hkind
  exact ⟨fun k hk => hlexeme.trans (hkeyword k hk), fun hk k heq => hname hk k (hlexeme ▸ heq)⟩

end GermanLox
