import GermanLox.Proofs.Cursor.Productions
import Mathlib.Data.List.TakeWhile

/-!
# The parser ends in bounds

A walk over any tokens whatsoever has a result with more room than there are tokens, and always the
same one: that of `parse`. So it never looks outside of its buffer, and it comes to an end, which is
the first end mark. What stands behind that mark does not matter.
-/

namespace GermanLox
namespace Parser

variable {α : Type}

/-- A parser that notes its failures never fails. -/
lemma exists_recover (p : Parser α) (s : State) : ∃ a s', recover p s = .ok a s' := by
  unfold recover
  cases p s with
  | ok a s' => exact ⟨_, _, rfl⟩
  | error d s' => exact ⟨_, _, rfl⟩

lemma exists_item (room : Nat) (s : State) : ∃ a s', item room s = .ok a s' := by
  cases room with
  | zero => exact exists_recover _ s
  | succ room => exact exists_recover _ s

end Parser

namespace Marked

open Cursor (Walk)

variable {α : Type} {b : Marked} {n r : Nat} {c : Cursor}

/-- Items that never fail are read up to the mark. -/
lemma exists_itemsUntil_mark {l : Nat} {item : Walk (Option α)} {item' : Parser (Option α)}
    (h : b.Follows l 1 item item') (hok : ∀ s, ∃ a s', item' s = .ok a s') (hc : b.Holds c)
    (hl : b.left c ≤ l) (hn : b.left c < n) :
    ∃ as c', Cursor.itemsUntil (fun _ => false) item n c = some (.ok as, c') ∧
      c'.place = b.before.length := by
  induction n generalizing c with
  | zero => omega
  | succ n ih =>
    rw [Cursor.itemsUntil]
    rcases hc.mark_or_token with hmark | ⟨t, ht⟩
    · rw [ExceptT.bind_of_ok (hc.check_mark hmark _)]
      exact ⟨[], c, ExceptT.bind_of_ok (hc.atEnd_mark hmark) _, hmark⟩
    · have hstep := left_step ht
      have hagrees := h c hc hl
      obtain ⟨a, s', hs'⟩ := hok (b.view c)
      rw [hs'] at hagrees
      generalize hx : item c = result at hagrees
      cases hagrees with
      | @ok _ c' hc' hleft =>
        obtain ⟨as, c'', hrest, hmark⟩ := ih hc' (by omega) (by omega)
        refine ⟨a.toList ++ as, c'', ?_, hmark⟩
        rw [ExceptT.bind_of_ok (hc.check_token ht _)]
        change (Cursor.atEnd >>= _) c = _
        rw [ExceptT.bind_of_ok (hc.atEnd_token ht)]
        change (item >>= _) c = _
        rw [ExceptT.bind_of_ok hx, ExceptT.bind_of_ok hrest]
        rfl

/-- With enough room both read the same program, up to the mark. -/
theorem exists_program {room : Nat} (hc : b.Holds c) (hn : b.left c < n) (hroom : b.left c ≤ room)
    (hr : b.left c ≤ r) :
    ∃ program c', Cursor.program n c = some (.ok program, c') ∧
      Parser.itemsUntil (fun _ => false) (Parser.item room) r (b.view c) =
        .ok program (b.view c') ∧
      b.Holds c' ∧ c'.place = b.before.length := by
  obtain ⟨program, c', hwalk, hmark⟩ := exists_itemsUntil_mark (Follows.statement_item hn hroom).2
    (Parser.exists_item room) hc (Nat.le_refl _) hn
  have hagrees := Follows.program hn hroom hr c hc (Nat.le_refl _)
  have hprogram : Cursor.program n c = some (.ok program, c') := hwalk
  rw [hprogram] at hagrees
  generalize hresult :
    Parser.itemsUntil (fun _ => false) (Parser.item room) r (b.view c) = result at hagrees
  cases hagrees with
  | ok hc' _ => exact ⟨program, c', hprogram, rfl, hc', hmark⟩

end Marked

namespace Parser

/-- With enough room all tokens left are read, and always with the same result. -/
theorem exists_items (s : State) (hs : ∀ t ∈ s.rest, t.kind ≠ .eof) :
    ∃ program s', ∀ room r, s.rest.length ≤ room → s.rest.length ≤ r →
      itemsUntil (fun _ => false) (item room) r s = .ok program s' := by
  let b : Marked := ⟨s.rest, ⟨.eof, "", s.endLine⟩, [], hs, rfl⟩
  let c : Cursor := ⟨b.all, 0, s.nextId, s.diagnostics⟩
  have hc : b.Holds c := ⟨rfl, Nat.zero_le _⟩
  have hview : b.view c = s := rfl
  have hleft : b.left c < s.rest.length + 1 := Nat.lt_succ_self _
  obtain ⟨program, c₁, hwalk, -⟩ :=
    Marked.exists_program hc hleft (Nat.le_refl _) (Nat.le_refl _)
  refine ⟨program, b.view c₁, fun room r hroom hr => ?_⟩
  obtain ⟨program', c₂, hwalk', hprogram', -⟩ := Marked.exists_program hc hleft hroom hr
  obtain ⟨rfl, rfl⟩ : program = program' ∧ c₁ = c₂ := by
    simpa using hwalk.symm.trans hwalk'
  exact hprogram'

lemma kind_ne_of_mem_start {tokens : List Token} {k : ExprId} {t : Token}
    (ht : t ∈ (State.start tokens k).rest) : t.kind ≠ .eof := by
  simpa using List.mem_takeWhile_imp ht

lemma length_rest_start (tokens : List Token) (k : ExprId) :
    (State.start tokens k).rest.length ≤ tokens.length :=
  (List.takeWhile_prefix _).length_le

/-- Where reading starts if there is an end mark. -/
lemma start_append {before : List Token} {mark : Token} (hbefore : ∀ t ∈ before, t.kind ≠ .eof)
    (hmark : mark.kind = .eof) (behind : List Token) (k : ExprId) :
    State.start (before ++ mark :: behind) k = ⟨before, mark.line, k, []⟩ := by
  have hrest : (before ++ mark :: behind).takeWhile (·.kind ≠ .eof) = before := by
    rw [List.takeWhile_append_of_pos (by simpa using hbefore)]
    simp [hmark]
  have hfind : (before ++ mark :: behind).find? (·.kind = .eof) = some mark := by
    rw [List.find?_append, List.find?_eq_none.mpr (by simpa using hbefore)]
    simp [hmark]
  simp only [State.start, hrest, hfind]

/-- Where reading starts if there is none. -/
lemma start_of_kind_ne {tokens : List Token} (htokens : ∀ t ∈ tokens, t.kind ≠ .eof)
    (k : ExprId) :
    State.start tokens k = ⟨tokens, (tokens.getLast?.map Token.line).getD 1, k, []⟩ := by
  have hrest : tokens.takeWhile (·.kind ≠ .eof) = tokens :=
    List.takeWhile_eq_self_iff.mpr (by simpa using htokens)
  have hfind : tokens.find? (·.kind = .eof) = none :=
    List.find?_eq_none.mpr (by simpa using htokens)
  simp only [State.start, hrest, hfind]

end Parser

/-- Tokens are cut at their first end mark. -/
lemma exists_marked {tokens : List Token} (h : ∃ t ∈ tokens, t.kind = .eof) :
    ∃ b : Marked, tokens = b.all := by
  obtain ⟨t, ht, heof⟩ := h
  obtain ⟨mark, hmark⟩ : ∃ mark, tokens.find? (·.kind = .eof) = some mark :=
    Option.isSome_iff_exists.mp (List.find?_isSome.mpr ⟨t, ht, by simpa using heof⟩)
  obtain ⟨hkind, before, behind, rfl, hbefore⟩ := List.find?_eq_some_iff_append.mp hmark
  exact ⟨⟨before, mark, behind, by simpa using hbefore, by simpa using hkind⟩, rfl⟩

/-- A parse is what is read from its start on, with any rooms that are enough. -/
lemma parse_eq_of_items {tokens : List Token} {k : ExprId} {s s' : Parser.State}
    {program : List Stmt} {room r : Nat} (hstart : Parser.State.start tokens k = s)
    (hroom : s.rest.length ≤ room) (hr : s.rest.length ≤ r)
    (h : Parser.itemsUntil (fun _ => false) (Parser.item room) r s = .ok program s') :
    parse tokens k =
      ⟨if s'.diagnostics.isEmpty then .ok program else .error s'.diagnostics, s'.nextId⟩ := by
  subst hstart
  have hlen := Parser.length_rest_start tokens k
  obtain ⟨program', s'', hitems⟩ :=
    Parser.exists_items (Parser.State.start tokens k) fun t ht => Parser.kind_ne_of_mem_start ht
  obtain ⟨rfl, rfl⟩ : program = program' ∧ s' = s'' := by
    simpa using h.symm.trans (hitems room r hroom hr)
  rw [parse, Parser.program, hitems _ _ hlen hlen]

/-- What is parsed depends on where reading starts only. -/
lemma parse_congr {tokens tokens' : List Token} {k : ExprId}
    (h : Parser.State.start tokens k = Parser.State.start tokens' k) :
    parse tokens k = parse tokens' k := by
  have hlen := Parser.length_rest_start tokens k
  obtain ⟨program, s', hitems⟩ :=
    Parser.exists_items (Parser.State.start tokens k) fun t ht => Parser.kind_ne_of_mem_start ht
  have hprogram := hitems _ _ hlen hlen
  rw [parse_eq_of_items rfl hlen hlen hprogram, parse_eq_of_items h.symm hlen hlen hprogram]

/-- The buffer for some tokens holds an end mark, and reading starts in front of the first one. -/
lemma exists_marked_buffer (tokens : List Token) (k : ExprId) :
    ∃ b : Marked, Cursor.buffer tokens = b.all ∧
      Parser.State.start tokens k = b.view ⟨b.all, 0, k, []⟩ := by
  unfold Cursor.buffer
  by_cases h : ∃ t ∈ tokens, t.kind = .eof
  · obtain ⟨b, rfl⟩ := exists_marked h
    have hstart := Parser.start_append b.kind_ne b.kind_mark b.behind k
    split
    · exact ⟨b, rfl, hstart⟩
    · exact ⟨{ b with behind := b.behind ++ [_] }, List.append_assoc _ _ _, hstart⟩
  · have hne : ∀ t ∈ tokens, t.kind ≠ .eof := fun t ht heof => h ⟨t, ht, heof⟩
    have hlast : ¬ tokens.getLast?.any (·.kind = .eof) := by
      cases hlast : tokens.getLast? with
      | none => simp
      | some t => simpa using hne t (List.mem_of_getLast? hlast)
    rw [if_neg hlast]
    exact ⟨⟨tokens, _, [], hne, rfl⟩, rfl, Parser.start_of_kind_ne hne k⟩

/-- Over the buffer a program is parsed to what `parse` says, and the cursor comes to stand on the
first end mark. -/
lemma exists_cursor (tokens : List Token) (k : ExprId) :
    ∃ c : Cursor,
      (∀ room, tokens.length < room →
        Cursor.parse room tokens k = some ((parse tokens k).outcome, c)) ∧
      c.nextId = (parse tokens k).nextId ∧ c.tokens = Cursor.buffer tokens ∧
      (∃ mark, c.tokens[c.place]? = some mark ∧ mark.kind = .eof) ∧
      ∀ t ∈ c.tokens.take c.place, t.kind ≠ .eof := by
  obtain ⟨b, hbuffer, hstart⟩ := exists_marked_buffer tokens k
  have hstarts : b.Holds ⟨b.all, 0, k, []⟩ := ⟨rfl, Nat.zero_le _⟩
  have hlen : b.left ⟨b.all, 0, k, []⟩ ≤ tokens.length := by
    have hrest := Parser.length_rest_start tokens k
    rw [hstart] at hrest
    exact hrest
  obtain ⟨program, c, -, hprogram, hc, hmark⟩ :=
    Marked.exists_program (n := tokens.length + 1) hstarts (Nat.lt_succ_of_le hlen) hlen hlen
  have hparse : parse tokens k =
      ⟨if c.diagnostics.isEmpty then .ok program else .error c.diagnostics, c.nextId⟩ := by
    rw [parse, Parser.program, hstart, hprogram]
    rfl
  refine ⟨c, fun room hroom => ?_, by rw [hparse], hc.tokens.trans hbuffer.symm,
    ⟨b.mark, hc.getElem?_mark hmark, b.kind_mark⟩, ?_⟩
  · obtain ⟨program', c', hwalk, hprogram', hc', hmark'⟩ :=
      Marked.exists_program (n := room) hstarts (Nat.lt_of_le_of_lt hlen hroom) hlen hlen
    obtain ⟨rfl, hview⟩ : program = program' ∧ b.view c = b.view c' := by
      simpa using hprogram.symm.trans hprogram'
    -- what a cursor shows and the mark it stands on say all about it
    obtain rfl : c = c' :=
      Cursor.ext (hc.tokens.trans hc'.tokens.symm) (hmark.trans hmark'.symm)
        (congrArg Parser.State.nextId hview) (congrArg Parser.State.diagnostics hview)
    rw [Cursor.parse, hbuffer, hwalk, hparse]
  · intro t ht
    rw [hc.tokens, hmark, Marked.all, List.take_left] at ht
    exact b.kind_ne t ht

/-- On any tokens the parser ends, in bounds and on the first end mark; nothing behind that mark
matters, and a mark that is missing is put on the line of the last token. -/
theorem parse_ends_on_first_mark (tokens : List Token) (firstId : ExprId) :
    (∃ c : Cursor,
      (∀ room, tokens.length < room →
        Cursor.parse room tokens firstId = some ((parse tokens firstId).outcome, c)) ∧
      c.nextId = (parse tokens firstId).nextId ∧ c.tokens = Cursor.buffer tokens ∧
      (∃ mark, c.tokens[c.place]? = some mark ∧ mark.kind = .eof) ∧
      ∀ t ∈ c.tokens.take c.place, t.kind ≠ .eof) ∧
    (∀ before mark behind, tokens = before ++ mark :: behind → mark.kind = .eof →
      parse tokens firstId = parse (before ++ [mark]) firstId) ∧
    ((∀ t ∈ tokens, t.kind ≠ .eof) →
      parse tokens firstId =
        parse (tokens ++ [⟨.eof, "", (tokens.getLast?.map Token.line).getD 1⟩]) firstId) := by
  refine ⟨exists_cursor tokens firstId, ?_, fun hne => parse_congr ?_⟩
  · rintro before mark behind rfl hmark
    refine parse_congr ?_
    by_cases hbefore : ∀ t ∈ before, t.kind ≠ .eof
    · rw [Parser.start_append hbefore hmark, Parser.start_append hbefore hmark]
    · -- an earlier mark hides this one
      have hmarked : ∃ t ∈ before, t.kind = .eof := by simpa using hbefore
      obtain ⟨b, rfl⟩ := exists_marked hmarked
      simp only [Marked.all, List.append_assoc, List.cons_append]
      rw [Parser.start_append b.kind_ne b.kind_mark, Parser.start_append b.kind_ne b.kind_mark]
  · rw [Parser.start_of_kind_ne hne, Parser.start_append hne rfl]

/-- The closing brace is missed at the first end mark, whatever stands behind it. -/
theorem parse_unclosed_block_before_name :
    (∃ c : Cursor,
      Cursor.parse 4 [⟨.symbol .leftBrace, "\x7b", 1⟩, ⟨.eof, "", 2⟩, ⟨.identifier, "a", 3⟩] 5 =
        some (.error [.syntactic 2 .blockEndExpected], c) ∧ c.place ≠ 0 ∧ c.place < 2) ∧
    parse [⟨.symbol .leftBrace, "\x7b", 1⟩, ⟨.eof, "", 2⟩, ⟨.identifier, "a", 3⟩] 5 =
      parse [⟨.symbol .leftBrace, "\x7b", 1⟩, ⟨.eof, "", 2⟩] 5 := by
  obtain ⟨⟨c, hwalk, -, htokens, ⟨mark, hplace, hmark⟩, hbefore⟩, hbehind, -⟩ :=
    parse_ends_on_first_mark
      [⟨.symbol .leftBrace, "\x7b", 1⟩, ⟨.eof, "", 2⟩, ⟨.identifier, "a", 3⟩] 5
  refine ⟨⟨c, (hwalk 4 (by decide)).trans rfl, fun hzero => ?_, ?_⟩, hbehind [_] _ _ rfl rfl⟩
  · rw [htokens, hzero] at hplace
    cases hplace
    cases hmark
  · by_contra hge
    rw [htokens] at hbefore
    refine hbefore ⟨.eof, "", 2⟩ (List.mem_take_iff_getElem.mpr ⟨1, ?_, rfl⟩) rfl
    exact Nat.lt_min.mpr ⟨by omega, by decide⟩

end GermanLox
