import GermanLox.Proofs.Cursor.Parser
import GermanLox.Proofs.Reading.Expressions
import GermanLox.Proofs.Sequencing

/-!
# A walk agrees with a reader

A cursor before the first end mark of its buffer shows the state of a reader: the tokens from its
place up to the mark are those not read yet. A walk follows a parser if from every such cursor,
with at most so many tokens left, it has a result, the result is that of the parser, and the cursor
still stands before the mark or on it. How many tokens a success takes is counted along, since each
round of a loop and each level of nesting must take one.
-/

namespace GermanLox

/-- A buffer, cut at its first end mark. -/
structure Marked where
  before : List Token
  mark : Token
  behind : List Token
  kind_ne : ∀ t ∈ before, t.kind ≠ .eof
  kind_mark : mark.kind = .eof

namespace Marked

open Cursor (Walk)
open GermanLox.Parser (State)

variable {α β : Type} (b : Marked)

/-- All tokens of the buffer. -/
def all : List Token :=
  b.before ++ b.mark :: b.behind

/-- The number of tokens from a cursor up to the mark. -/
def left (c : Cursor) : Nat :=
  b.before.length - c.place

/-- The state that a cursor shows. -/
def view (c : Cursor) : State :=
  ⟨b.before.drop c.place, b.mark.line, c.nextId, c.diagnostics⟩

/-- A cursor over the buffer that has not passed the mark. -/
structure Holds (c : Cursor) : Prop where
  tokens : c.tokens = b.all
  place : c.place ≤ b.before.length

/-- The results of a walk from `c` and of a parser agree, and a success has taken `d` tokens if
there were so many. -/
inductive Agrees (c : Cursor) (d : Nat) :
    Option (Except Diagnostic α × Cursor) → EStateM.Result Diagnostic State α → Prop
  | ok {a c'} (h : b.Holds c') (hleft : b.left c' ≤ b.left c - d) :
    Agrees c d (some (.ok a, c')) (.ok a (b.view c'))
  | error {e c'} (h : b.Holds c') (hleft : b.left c' ≤ b.left c) :
    Agrees c d (some (.error e, c')) (.error e (b.view c'))

/-- A walk follows a parser wherever at most `l` tokens are left, with successes that take `d`. -/
def Follows (l d : Nat) (x : Walk α) (p : Parser α) : Prop :=
  ∀ c, b.Holds c → b.left c ≤ l → b.Agrees c d (x c) (p (b.view c))

variable {b}

lemma Agrees.after {c c' : Cursor} {d e : Nat} {r : Option (Except Diagnostic α × Cursor)}
    {q : EStateM.Result Diagnostic State α} (h : b.Agrees c' e r q)
    (hleft : b.left c' ≤ b.left c - d) : b.Agrees c (d + e) r q := by
  cases h with
  | ok h hleft' => exact .ok h (by omega)
  | error h hleft' => exact .error h (by omega)

lemma Agrees.mono {c : Cursor} {d e : Nat} {r : Option (Except Diagnostic α × Cursor)}
    {q : EStateM.Result Diagnostic State α} (h : b.Agrees c e r q) (hd : d ≤ e) :
    b.Agrees c d r q := by
  cases h with
  | ok h hleft => exact .ok h (by omega)
  | error h hleft => exact .error h hleft

lemma Agrees.bind {c : Cursor} {d e : Nat} {x : Walk α} {p : Parser α} {f : α → Walk β}
    {g : α → Parser β} (h : b.Agrees c d (x c) (p (b.view c)))
    (hf : ∀ a c', b.Holds c' → b.left c' ≤ b.left c - d →
      b.Agrees c' e (f a c') (g a (b.view c'))) :
    b.Agrees c (d + e) ((x >>= f) c) ((p >>= g) (b.view c)) := by
  generalize hx : x c = r at h
  generalize hp : p (b.view c) = q at h
  cases h with
  | ok hc' hleft =>
    rw [ExceptT.bind_of_ok hx, EStateM.bind_of_ok hp]
    exact (hf _ _ hc' hleft).after hleft
  | error hc' hleft =>
    rw [ExceptT.bind_of_error hx, EStateM.bind_of_error hp]
    exact .error hc' hleft

/-- A cursor stands on the mark or on a token before it. -/
lemma Holds.mark_or_token {c : Cursor} (h : b.Holds c) :
    c.place = b.before.length ∨ ∃ t, b.before[c.place]? = some t := by
  rcases Nat.lt_or_ge c.place b.before.length with hlt | hge
  · exact .inr ⟨_, List.getElem?_eq_getElem hlt⟩
  · exact .inl (Nat.le_antisymm h.place hge)

lemma Holds.getElem?_mark {c : Cursor} (h : b.Holds c) (hmark : c.place = b.before.length) :
    c.tokens[c.place]? = some b.mark := by
  simp [h.tokens, all, hmark]

lemma Holds.getElem?_token {c : Cursor} (h : b.Holds c) {i : Nat} {t : Token}
    (ht : b.before[i]? = some t) : c.tokens[i]? = some t := by
  rw [h.tokens, all, List.getElem?_append_left (List.getElem?_eq_some_iff.mp ht).1, ht]

lemma kind_ne_of_getElem? {i : Nat} {t : Token} (ht : b.before[i]? = some t) : t.kind ≠ .eof :=
  b.kind_ne t (List.mem_of_getElem? ht)

lemma rest_mark {c : Cursor} (hmark : c.place = b.before.length) : (b.view c).rest = [] := by
  simp [view, hmark]

lemma rest_token {c : Cursor} {t : Token} (ht : b.before[c.place]? = some t) :
    (b.view c).rest = t :: b.before.drop (c.place + 1) := by
  obtain ⟨hlt, rfl⟩ := List.getElem?_eq_some_iff.mp ht
  exact List.drop_eq_getElem_cons hlt

lemma Holds.peek_mark {c : Cursor} (h : b.Holds c) (hmark : c.place = b.before.length) :
    Cursor.peek c = some (.ok b.mark, c) := by
  simp only [Cursor.peek, Cursor.look, h.getElem?_mark hmark, Option.map_some]

lemma Holds.peek_token {c : Cursor} (h : b.Holds c) {t : Token}
    (ht : b.before[c.place]? = some t) : Cursor.peek c = some (.ok t, c) := by
  simp only [Cursor.peek, Cursor.look, h.getElem?_token ht, Option.map_some]

lemma Holds.atEnd_mark {c : Cursor} (h : b.Holds c) (hmark : c.place = b.before.length) :
    Cursor.atEnd c = some (.ok true, c) := by
  unfold Cursor.atEnd
  rw [ExceptT.bind_of_ok (h.peek_mark hmark), decide_eq_true b.kind_mark]
  rfl

lemma Holds.atEnd_token {c : Cursor} (h : b.Holds c) {t : Token}
    (ht : b.before[c.place]? = some t) : Cursor.atEnd c = some (.ok false, c) := by
  unfold Cursor.atEnd
  rw [ExceptT.bind_of_ok (h.peek_token ht), decide_eq_false (kind_ne_of_getElem? ht)]
  rfl

lemma Holds.check_mark {c : Cursor} (h : b.Holds c) (hmark : c.place = b.before.length)
    (form : Token → Bool) : Cursor.check form c = some (.ok false, c) := by
  unfold Cursor.check
  rw [ExceptT.bind_of_ok (h.atEnd_mark hmark)]
  rfl

lemma Holds.check_token {c : Cursor} (h : b.Holds c) {t : Token}
    (ht : b.before[c.place]? = some t) (form : Token → Bool) :
    Cursor.check form c = some (.ok (form t), c) := by
  unfold Cursor.check
  rw [ExceptT.bind_of_ok (h.atEnd_token ht)]
  exact ExceptT.bind_of_ok (h.peek_token ht) _

/-- A cursor moves on over a token. -/
lemma Holds.step {c : Cursor} (h : b.Holds c) {t : Token} (ht : b.before[c.place]? = some t) :
    b.Holds { c with place := c.place + 1 } :=
  ⟨h.tokens, (List.getElem?_eq_some_iff.mp ht).1⟩

lemma left_step {c : Cursor} {t : Token} (ht : b.before[c.place]? = some t) :
    b.left { c with place := c.place + 1 } + 1 = b.left c := by
  have hlt := (List.getElem?_eq_some_iff.mp ht).1
  simp only [left]
  omega

lemma Holds.advance_token {c : Cursor} (h : b.Holds c) {t : Token}
    (ht : b.before[c.place]? = some t) :
    Cursor.advance c = some (.ok t, { c with place := c.place + 1 }) := by
  unfold Cursor.advance
  rw [ExceptT.bind_of_ok (h.atEnd_token ht)]
  change Option.map _ (c.tokens[c.place + 1 - 1]?) = _
  rw [Nat.add_sub_cancel, h.getElem?_token ht]
  rfl

lemma Holds.accept?_mark {c : Cursor} (h : b.Holds c) (hmark : c.place = b.before.length)
    (form : Token → Bool) : Cursor.accept? form c = some (.ok none, c) := by
  unfold Cursor.accept?
  rw [ExceptT.bind_of_ok (h.check_mark hmark form)]
  rfl

lemma Holds.accept?_token {c : Cursor} (h : b.Holds c) {t : Token}
    (ht : b.before[c.place]? = some t) {form : Token → Bool} (hform : form t) :
    Cursor.accept? form c = some (.ok (some t), { c with place := c.place + 1 }) := by
  unfold Cursor.accept?
  rw [ExceptT.bind_of_ok (h.check_token ht form), hform]
  exact ExceptT.bind_of_ok (h.advance_token ht) _

lemma Holds.accept?_other {c : Cursor} (h : b.Holds c) {t : Token}
    (ht : b.before[c.place]? = some t) {form : Token → Bool} (hform : form t = false) :
    Cursor.accept? form c = some (.ok none, c) := by
  unfold Cursor.accept?
  rw [ExceptT.bind_of_ok (h.check_token ht form), hform]
  rfl

/-- Both see the same line next. -/
lemma Holds.exists_peek {c : Cursor} (h : b.Holds c) :
    ∃ t, Cursor.peek c = some (.ok t, c) ∧ t.line = (b.view c).line := by
  rcases h.mark_or_token with hmark | ⟨t, ht⟩
  · refine ⟨b.mark, h.peek_mark hmark, ?_⟩
    rw [State.line, rest_mark hmark]
    rfl
  · refine ⟨t, h.peek_token ht, ?_⟩
    rw [State.line, rest_token ht]

namespace Follows

variable {l m d e : Nat} {x : Walk α} {p : Parser α}

lemma mono (h : b.Follows m e x p) (hl : l ≤ m) (hd : d ≤ e) : b.Follows l d x p :=
  fun c hc hleft => (h c hc (Nat.le_trans hleft hl)).mono hd

/-- Nothing is said of how many tokens are taken. -/
lemma lax (h : b.Follows l d x p) : b.Follows l 0 x p :=
  h.mono (Nat.le_refl l) (Nat.zero_le d)

lemma pure (a : α) : b.Follows l 0 (Pure.pure a) (Pure.pure a) :=
  fun _ hc _ => .ok hc (Nat.le_refl _)

lemma bind {f : α → Walk β} {g : α → Parser β} (h : b.Follows l d x p)
    (hf : ∀ a, b.Follows (l - d) e (f a) (g a)) : b.Follows l (d + e) (x >>= f) (p >>= g) :=
  fun c hc hleft => (h c hc hleft).bind fun a c' hc' hleft' => hf a c' hc' (by omega)

/-- What the second part takes counts. -/
lemma before {f : α → Walk β} {g : α → Parser β} (h : b.Follows l 0 x p)
    (hf : ∀ a, b.Follows l d (f a) (g a)) : b.Follows l d (x >>= f) (p >>= g) :=
  Nat.zero_add d ▸ h.bind hf

/-- What the first part takes counts. -/
lemma andThen {f : α → Walk β} {g : α → Parser β} (h : b.Follows l d x p)
    (hf : ∀ a, b.Follows l 0 (f a) (g a)) : b.Follows l d (x >>= f) (p >>= g) :=
  h.bind fun a => (hf a).mono (Nat.sub_le l d) (Nat.le_refl 0)

lemma map (h : b.Follows l d x p) (f : α → β) : b.Follows l d (f <$> x) (f <$> p) := by
  have hbind : b.Follows l d (x >>= fun a => Pure.pure (f a)) (p >>= fun a => Pure.pure (f a)) :=
    h.andThen fun a => .pure _
  rwa [bind_pure_comp, bind_pure_comp] at hbind

lemma freshId : b.Follows l 0 Cursor.freshId Parser.freshId :=
  fun _ hc _ => .ok ⟨hc.tokens, hc.place⟩ (Nat.le_refl _)

lemma note (line : Nat) (cause : SyntaxFault) :
    b.Follows l 0 (Cursor.note (.syntactic line cause)) (Parser.note line cause) :=
  fun _ hc _ => .ok ⟨hc.tokens, hc.place⟩ (Nat.le_refl _)

lemma fail (cause : SyntaxFault) :
    b.Follows l d (Cursor.fail cause : Walk α) (Parser.fail cause) := by
  intro c hc hleft
  obtain ⟨t, hpeek, hline⟩ := hc.exists_peek
  unfold Cursor.fail Parser.fail
  rw [ExceptT.bind_of_ok hpeek, hline]
  exact .error hc (Nat.le_refl _)

lemma noteOverlong (tooMany : SyntaxFault) (count : Nat) :
    b.Follows l 0 (Cursor.noteOverlong tooMany count) (Parser.noteOverlong tooMany count) := by
  intro c hc hleft
  obtain ⟨t, hpeek, hline⟩ := hc.exists_peek
  unfold Cursor.noteOverlong Parser.noteOverlong
  split
  · rw [ExceptT.bind_of_ok hpeek, hline]
    exact note _ _ c hc hleft
  · exact pure () c hc hleft

/-- A token that is accepted leaves fewer. -/
lemma accept {form : Token → Bool} {f : Option Token → Walk α} {g : Option Token → Parser α}
    (hnone : b.Follows l d (f none) (g none))
    (hsome : ∀ t k, form t → k < l → b.Follows k (d - 1) (f (some t)) (g (some t))) :
    b.Follows l d (Cursor.accept? form >>= f) (Parser.accept? form >>= g) := by
  intro c hc hleft
  rcases hc.mark_or_token with hmark | ⟨t, ht⟩
  · have haccept : Parser.accept? form (b.view c) = .ok none (b.view c) :=
      Parser.accept?_of_not (by rw [rest_mark hmark]; rfl)
    rw [ExceptT.bind_of_ok (hc.accept?_mark hmark form), EStateM.bind_of_ok haccept]
    exact hnone c hc hleft
  · by_cases hform : form t
    · have haccept : Parser.accept? form (b.view c) =
          .ok (some t) (b.view { c with place := c.place + 1 }) := by
        unfold Parser.accept?
        rw [rest_token ht]
        simp only [hform, if_true]
        rfl
      have hstep := left_step ht
      rw [ExceptT.bind_of_ok (hc.accept?_token ht hform), EStateM.bind_of_ok haccept]
      have h := hsome t (b.left { c with place := c.place + 1 }) hform (by omega) _ (hc.step ht)
        (Nat.le_refl _)
      exact (h.after (c := c) (d := 1) (by omega)).mono (by omega)
    · rw [Bool.not_eq_true] at hform
      have haccept : Parser.accept? form (b.view c) = .ok none (b.view c) :=
        Parser.accept?_of_not (by rw [rest_token ht]; exact hform)
      rw [ExceptT.bind_of_ok (hc.accept?_other ht hform), EStateM.bind_of_ok haccept]
      exact hnone c hc hleft

/-- Where no token is left, none is accepted. -/
lemma accept_none {form : Token → Bool} {f : Option Token → Walk α}
    (hnone : b.Follows 0 d (f none) p) : b.Follows 0 d (Cursor.accept? form >>= f) p := by
  intro c hc hleft
  have hmark : c.place = b.before.length := by
    have hplace := hc.place
    simp only [left] at hleft
    omega
  rw [ExceptT.bind_of_ok (hc.accept?_mark hmark form)]
  exact hnone c hc hleft

lemma check {form : Token → Bool} {f : Bool → Walk α} {g : Bool → Parser α}
    (h : ∀ r, b.Follows l d (f r) (g r)) :
    b.Follows l d (Cursor.check form >>= f) (Parser.nextIs form >>= g) := by
  intro c hc hleft
  rcases hc.mark_or_token with hmark | ⟨t, ht⟩
  · have hnext : Parser.nextIs form (b.view c) = .ok false (b.view c) := by
      unfold Parser.nextIs
      rw [rest_mark hmark]
      rfl
    rw [ExceptT.bind_of_ok (hc.check_mark hmark form), EStateM.bind_of_ok hnext]
    exact h false c hc hleft
  · have hnext : Parser.nextIs form (b.view c) = .ok (form t) (b.view c) := by
      unfold Parser.nextIs
      rw [rest_token ht]
      rfl
    rw [ExceptT.bind_of_ok (hc.check_token ht form), EStateM.bind_of_ok hnext]
    exact h (form t) c hc hleft

lemma expect (form : Token → Bool) (cause : SyntaxFault) :
    b.Follows l 1 (Cursor.expect form cause) (Parser.expect form cause) :=
  accept (fail cause) fun t _ _ _ => pure t

/-- A node that takes the next number. -/
lemma node (make : ExprId → α) :
    b.Follows l 0 (do return make (← Cursor.freshId)) (do return make (← Parser.freshId)) :=
  freshId.andThen fun _ => pure _

lemma entries {entry : Walk α} {entry' : Parser α} {n r : Nat} (h : b.Follows l 1 entry entry')
    (tooMany : SyntaxFault) (hn : l < n) (hr : l ≤ r) (count : Nat) :
    b.Follows l 1 (Cursor.entries entry tooMany n count)
      (Parser.entries entry' tooMany r count) := by
  induction n generalizing l r count with
  | zero => omega
  | succ n ih =>
    rw [Parser.entries_eq]
    refine (noteOverlong tooMany count).before fun _ => h.andThen fun first => ?_
    cases r with
    | zero =>
      obtain rfl : l = 0 := by omega
      exact accept_none (pure _)
    | succ r =>
      refine accept (pure _) fun t k _ hk => ?_
      have hentry : b.Follows k 1 entry entry' := h.mono (by omega) (Nat.le_refl 1)
      exact ((ih hentry (by omega) (by omega) _).andThen fun _ => pure _).lax

lemma entriesOrNone {entry : Walk α} {entry' : Parser α} {n r : Nat}
    (h : b.Follows l 1 entry entry') (tooMany : SyntaxFault) (hn : l < n) (hr : l ≤ r) :
    b.Follows l 0 (Cursor.entriesOrNone entry tooMany n)
      (Parser.entriesOrNone entry' tooMany r) := by
  refine check fun stop => ?_
  cases stop with
  | true => exact pure _
  | false => exact (h.entries tooMany hn hr 0).lax

lemma itemsUntil {item : Walk (Option α)} {item' : Parser (Option α)} {n r : Nat}
    (h : b.Follows l 1 item item') (stop : Token → Bool) (hn : l < n) (hr : l ≤ r) :
    b.Follows l 0 (Cursor.itemsUntil stop item n) (Parser.itemsUntil stop item' r) := by
  induction n generalizing l r with
  | zero => omega
  | succ n ih =>
    intro c hc hleft
    rw [Cursor.itemsUntil]
    rcases hc.mark_or_token with hmark | ⟨t, ht⟩
    · rw [ExceptT.bind_of_ok (hc.check_mark hmark stop)]
      change b.Agrees c 0 ((Cursor.atEnd >>= _) c) _
      rw [ExceptT.bind_of_ok (hc.atEnd_mark hmark)]
      cases r with
      | zero => exact pure _ c hc hleft
      | succ r =>
        have hpeek : Parser.peek? (b.view c) = .ok none (b.view c) := by
          unfold Parser.peek?
          rw [rest_mark hmark]
          rfl
        rw [Parser.itemsUntil, EStateM.bind_of_ok hpeek]
        exact pure _ c hc hleft
    · have hstep := left_step ht
      obtain ⟨r, rfl⟩ : ∃ r', r = r' + 1 := ⟨r - 1, by omega⟩
      have hpeek : Parser.peek? (b.view c) = .ok (some t) (b.view c) := by
        unfold Parser.peek?
        rw [rest_token ht]
        rfl
      rw [ExceptT.bind_of_ok (hc.check_token ht stop), Parser.itemsUntil, EStateM.bind_of_ok hpeek]
      dsimp only
      by_cases hstop : stop t
      · rw [if_pos hstop, if_pos hstop]
        exact pure _ c hc hleft
      · rw [if_neg hstop, if_neg hstop, ExceptT.bind_of_ok (hc.atEnd_token ht)]
        -- an item that is read leaves fewer tokens, so the rest of the room is enough
        have hrest : b.Follows (b.left c - 1) 0 (Cursor.itemsUntil stop item n)
            (Parser.itemsUntil stop item' r) :=
          ih (h.mono (by omega) (Nat.le_refl 1)) (by omega) (by omega)
        exact ((h c hc hleft).bind fun first c' hc' hleft' =>
          (hrest.andThen fun _ => pure _) c' hc' hleft').mono (Nat.zero_le 1)

end Follows

end Marked
end GermanLox
