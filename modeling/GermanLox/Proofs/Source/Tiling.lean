import GermanLox.Proofs.Source.Lexemes

/-!
# Where the items of a source stand

Every item of a source comes from a stretch of it. The stretches follow one another, what is
between them is blanks and comments, and the last of them is the end. An item is on the line on
which its stretch ends.
-/

namespace GermanLox

/-- A stretch of a text, from one place between its characters to another. -/
structure Stretch (source : String) where
  start : source.Pos
  stop : source.Pos
  le : start ≤ stop

namespace Stretch

variable {source : String}

def text (s : Stretch source) : String :=
  source.extract s.start s.stop

/-- The empty stretch at the end. -/
def atEnd (source : String) : Stretch source :=
  ⟨source.endPos, source.endPos, String.Pos.le_refl _⟩

end Stretch

/-- The line that a place of a text is on. -/
def lineAt {source : String} (p : source.Pos) : Nat :=
  1 + (source.extract source.startPos p).toList.count '\n'

variable {source : String}

/-- The stretches that items come from. -/
inductive Item.StandsOn : Item → Stretch source → Prop
  | token {kind : TokenKind} {s : Stretch source} (hkind : kind ≠ .eof) (hne : s.start < s.stop) :
    StandsOn (.token ⟨kind, s.text, lineAt s.stop⟩) s
  | unexpected {c : Char} {s : Stretch source} (htext : s.text = String.singleton c) :
    StandsOn (.fault (lineAt s.stop) .unexpectedCharacter) s
  | unterminated {s : Stretch source} (hquote : s.text.toList.head? = some '"')
    (hstop : s.stop = source.endPos) :
    StandsOn (.fault (lineAt s.stop) .unterminatedString) s

/-- Nothing but blanks and comments is between two places. -/
inductive Skipped : source.Pos → source.Pos → Prop
  | nothing (p : source.Pos) : Skipped p p
  | more {p q r : source.Pos} {kind : FragmentKind} (hle : p ≤ q)
    (h : Lexeme kind (source.extract p q).toList (source.extract q source.endPos).toList)
    (hkind : kind = .blank ∨ kind = .comment) (hrest : Skipped q r) : Skipped p r

/-- Items and their stretches cover a text from a place on. -/
inductive Tiles : source.Pos → List (Item × Stretch source) → Prop
  | done {p : source.Pos} (h : Skipped p source.endPos) :
    Tiles p [(.token ⟨.eof, "", lineAt source.endPos⟩, .atEnd source)]
  | item {p : source.Pos} {item : Item} {s : Stretch source} {placed : List (Item × Stretch source)}
    (hskip : Skipped p s.start) (h : item.StandsOn s) (hrest : Tiles s.stop placed) :
    Tiles p ((item, s) :: placed)

section Places

/-- A place of a source that divides its characters. -/
def Divides (p : source.Pos) (before after : List Char) : Prop :=
  p.Splits (String.ofList before) (String.ofList after)

lemma exists_divides {before after : List Char} (h : source.toList = before ++ after) :
    ∃ p : source.Pos, Divides p before after := by
  have hsource : source = String.ofList before ++ String.ofList after := by
    rw [← String.ofList_append, ← h, String.ofList_toList]
  exact ⟨_, String.Pos.splits_ofEqAppend hsource⟩

lemma divides_startPos (source : String) : Divides source.startPos [] source.toList := by
  unfold Divides
  rw [String.ofList_toList]
  exact source.splits_startPos

lemma divides_endPos (source : String) : Divides source.endPos source.toList [] := by
  unfold Divides
  rw [String.ofList_toList]
  exact source.splits_endPos

variable {p q : source.Pos} {before text rest : List Char}

lemma Divides.eq_append (h : Divides p before rest) : source.toList = before ++ rest := by
  rw [h.1, String.toList_append, String.toList_ofList, String.toList_ofList]

lemma Divides.eq_endPos (h : Divides p before []) : p = source.endPos :=
  String.Pos.splits_empty_right_iff.mp h |>.1

/-- The text between two places. -/
lemma Divides.extract_eq (hp : Divides p before (text ++ rest))
    (hq : Divides q (before ++ text) rest) :
    p ≤ q ∧ source.extract p q = String.ofList text := by
  unfold Divides at hp hq
  rw [String.ofList_append] at hp hq
  obtain ⟨hle, htext⟩ := String.copy_slice_eq_iff_splits.mpr ⟨_, _, hp, hq⟩
  exact ⟨hle, (String.extract_eq_copy_slice p q hle).trans htext⟩

lemma Divides.lineAt_eq (h : Divides p before rest) : lineAt p = 1 + before.count '\n' := by
  have hstart : Divides source.startPos [] (before ++ rest) := by
    rw [← h.eq_append]
    exact divides_startPos source
  rw [lineAt, (hstart.extract_eq h).2, String.toList_ofList]

/-- A place behind a text that starts at a given one. -/
lemma Divides.exists_next (h : Divides p before (text ++ rest)) :
    ∃ q, Divides q (before ++ text) rest ∧ p ≤ q ∧ source.extract p q = String.ofList text ∧
      lineAt q = lineAt p + text.count '\n' := by
  have hsource : source.toList = (before ++ text) ++ rest := by
    rw [h.eq_append, List.append_assoc]
  obtain ⟨q, hq⟩ := exists_divides hsource
  obtain ⟨hle, htext⟩ := h.extract_eq hq
  refine ⟨q, hq, hle, htext, ?_⟩
  rw [hq.lineAt_eq, h.lineAt_eq, List.count_append]
  omega

lemma Divides.extract_endPos (h : Divides p before rest) :
    source.extract p source.endPos = String.ofList rest := by
  have hend : Divides source.endPos (before ++ rest) [] := by
    rw [← h.eq_append]
    exact divides_endPos source
  refine (Divides.extract_eq ?_ hend).2
  rwa [List.append_nil]

lemma Divides.lt (hp : Divides p before (text ++ rest)) (hq : Divides q (before ++ text) rest)
    (hne : text ≠ []) : p < q := by
  refine Std.lt_of_le_of_ne (hp.extract_eq hq).1 ?_
  rintro rfl
  have hbefore := congrArg String.toList (String.Pos.Splits.eq_left hp hq)
  rw [String.toList_ofList, String.toList_ofList] at hbefore
  exact hne (List.append_right_eq_self.mp hbefore.symm)

lemma extract_self (p : source.Pos) : source.extract p p = "" := by
  obtain ⟨hle, htext⟩ := String.copy_slice_eq_iff_splits.mpr
    ⟨_, _, by rw [String.empty_append]; exact p.splits, by rw [String.append_empty]; exact p.splits⟩
  exact (String.extract_eq_copy_slice p p hle).trans htext

end Places

section Order

lemma Skipped.le {p q : source.Pos} (h : Skipped p q) : p ≤ q := by
  induction h with
  | nothing => exact String.Pos.le_refl _
  | more hle _ _ _ ih => exact String.Pos.le_trans hle ih

lemma Tiles.le_start {p : source.Pos} {placed : List (Item × Stretch source)}
    (h : Tiles p placed) : ∀ a ∈ placed, p ≤ a.2.start := by
  induction h with
  | done h =>
    rintro a ha
    obtain rfl := List.mem_singleton.mp ha
    exact h.le
  | @item p item s placed hskip _ _ ih =>
    intro a ha
    rcases List.mem_cons.mp ha with rfl | ha
    · exact hskip.le
    · exact String.Pos.le_trans hskip.le (String.Pos.le_trans s.le (ih a ha))

/-- All items but the end have a text of their own. -/
lemma Item.StandsOn.start_lt_stop {item : Item} {s : Stretch source} (h : item.StandsOn s) :
    s.start < s.stop := by
  have hlt : s.text ≠ "" → s.start < s.stop := by
    intro hne
    refine Std.lt_of_le_of_ne s.le fun heq => hne ?_
    rw [Stretch.text, heq, extract_self]
  cases h with
  | token _ hne => exact hne
  | unexpected htext =>
    refine hlt ?_
    rw [htext]
    exact String.singleton_ne_empty
  | unterminated hquote =>
    refine hlt fun hempty => ?_
    rw [hempty] at hquote
    cases hquote

lemma Item.StandsOn.kind_ne_eof {t : Token} {s : Stretch source}
    (h : (Item.token t).StandsOn s) : t.kind ≠ .eof := by
  cases h with
  | token hkind => exact hkind

/-- Items follow one another. -/
lemma Tiles.pairwise {p : source.Pos} {placed : List (Item × Stretch source)} (h : Tiles p placed) :
    placed.Pairwise fun a b => a.2.start < a.2.stop ∧ a.2.stop ≤ b.2.start := by
  induction h with
  | done => exact List.pairwise_singleton _ _
  | item _ h hrest ih =>
    exact List.pairwise_cons.mpr ⟨fun b hb => ⟨h.start_lt_stop, hrest.le_start b hb⟩, ih⟩

/-- The end is the last item, and no other is an end. -/
lemma Tiles.ends {p : source.Pos} {placed : List (Item × Stretch source)} (h : Tiles p placed) :
    ∃ items, placed.map Prod.fst = items ++ [.token ⟨.eof, "", lineAt source.endPos⟩] ∧
      ∀ t, Item.token t ∈ items → t.kind ≠ .eof := by
  induction h with
  | done => exact ⟨[], rfl, fun _ h => (nomatch h)⟩
  | @item p item s placed _ h _ ih =>
    obtain ⟨items, hitems, hkinds⟩ := ih
    refine ⟨item :: items, by rw [List.map_cons, hitems, List.cons_append], fun t ht => ?_⟩
    rcases List.mem_cons.mp ht with rfl | ht
    · exact h.kind_ne_eof
    · exact hkinds t ht

end Order

lemma Tiles.skip {p q : source.Pos} {placed : List (Item × Stretch source)} {kind : FragmentKind}
    (hle : p ≤ q)
    (h : Lexeme kind (source.extract p q).toList (source.extract q source.endPos).toList)
    (hkind : kind = .blank ∨ kind = .comment) (hrest : Tiles q placed) : Tiles p placed := by
  cases hrest with
  | done hskip => exact .done (.more hle h hkind hskip)
  | item hskip hitem hrest => exact .item (.more hle h hkind hskip) hitem hrest

section Fragments

variable {p q : source.Pos} {before cs rest : List Char} {c : Char}

/-- A fragment that is no item is skipped. -/
lemma Tiles.of_none {placed : List (Item × Stretch source)} (hp : Divides p before (c :: cs))
    (htext : (Fragment.starting c cs).text ++ rest = c :: cs)
    (hq : Divides q (before ++ (Fragment.starting c cs).text) rest)
    (hnone : Item.ofFragment? (lineAt q) (Fragment.starting c cs) = none) (hrest : Tiles q placed) :
    Tiles p placed := by
  have hlexeme := Fragment.starting_lexeme htext
  rw [← htext] at hp
  generalize Fragment.starting c cs = fragment at *
  obtain ⟨kind, text⟩ := fragment
  obtain ⟨hle, hextract⟩ := hp.extract_eq hq
  have hskip : (kind = .blank ∨ kind = .comment) ∧ Lexeme kind text rest := by
    rcases hlexeme with hlexeme | ⟨-, hfault⟩ | ⟨-, hfault⟩
    · cases kind with
      | blank => exact ⟨.inl rfl, hlexeme⟩
      | comment => exact ⟨.inr rfl, hlexeme⟩
      | token kind => cases hnone
      | fault cause => cases hnone
    · cases hfault
      cases hnone
    · cases hfault
      cases hnone
  refine hrest.skip hle ?_ hskip.1
  rw [hextract, hq.extract_endPos, String.toList_ofList, String.toList_ofList]
  exact hskip.2

/-- An item stands on the fragment that it comes from. -/
lemma Item.standsOn_starting {item : Item} (hp : Divides p before (c :: cs))
    (htext : (Fragment.starting c cs).text ++ rest = c :: cs)
    (hq : Divides q (before ++ (Fragment.starting c cs).text) rest)
    (hitem : Item.ofFragment? (lineAt q) (Fragment.starting c cs) = some item) (hle : p ≤ q) :
    item.StandsOn ⟨p, q, hle⟩ := by
  have hlexeme := Fragment.starting_lexeme htext
  have hne := Fragment.starting_ne_nil c cs
  rw [← htext] at hp
  generalize Fragment.starting c cs = fragment at *
  obtain ⟨kind, text⟩ := fragment
  have hextract := (hp.extract_eq hq).2
  rcases hlexeme with hlexeme | ⟨rfl, hfault⟩ | ⟨-, hfault⟩
  · cases kind with
    | blank => cases hitem
    | comment => cases hitem
    | token kind =>
      have htoken : item = .token ⟨kind, source.extract p q, lineAt q⟩ := by
        rw [hextract]
        exact (Option.some.inj hitem).symm
      rw [htoken]
      exact .token (s := ⟨p, q, hle⟩) hlexeme.kind_ne_eof (hp.lt hq hne)
    | fault cause => exact absurd rfl (Fragment.ne_fault_of_lexeme hlexeme cause)
  · cases hfault
    have hitem : item = .fault (lineAt q) .unterminatedString := (Option.some.inj hitem).symm
    obtain rfl : rest = [] := List.append_right_eq_self.mp htext
    rw [hitem]
    refine .unterminated (s := ⟨p, q, hle⟩) ?_ hq.eq_endPos
    rw [Stretch.text, hextract, String.toList_ofList]
    rfl
  · cases hfault
    have hitem : item = .fault (lineAt q) .unexpectedCharacter := (Option.some.inj hitem).symm
    rw [hitem]
    exact .unexpected (s := ⟨p, q, hle⟩) (hextract.trans String.singleton_eq_ofList.symm)

end Fragments

end GermanLox
