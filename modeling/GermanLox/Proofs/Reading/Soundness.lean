import GermanLox.Proofs.Reading.Basic
import GermanLox.Proofs.Sequencing

/-!
# What the parser reads

Whatever the parser takes without noting anything is read as `Reading` says. Rooms play no part
here: a loop that stops early has read less, and what it has read is right.
-/

namespace GermanLox
namespace Parser

open Reading

variable {α : Type}

/-- If a parser ends with nothing noted from a state on, it has read a stretch as the relation
says. -/
def ReadsFrom (s : State) (p : Parser α)
    (R : Nat → List Token → α → Nat → List Diagnostic → Prop) : Prop :=
  ∀ ⦃a s'⦄, p s = .ok a s' → s'.diagnostics = [] →
    ∃ ts k, s = ⟨ts ++ s'.rest, s'.endLine, k, []⟩ ∧ R k ts a s'.nextId []

def Reads (p : Parser α) (R : Nat → List Token → α → Nat → List Diagnostic → Prop) : Prop :=
  ∀ s, ReadsFrom s p R

lemma expect_eq_ok {form : Token → Bool} {cause : SyntaxFault} {s s' : State} {t : Token}
    (h : expect form cause s = .ok t s') :
    form t ∧ s = ⟨t :: s'.rest, s'.endLine, s'.nextId, s'.diagnostics⟩ := by
  obtain ⟨rest, line, k, notes⟩ := s
  obtain ⟨r, s₁, h₁, h₂⟩ := EStateM.bind_eq_ok h
  cases rest with
  | nil => cases h₁; cases h₂
  | cons u us =>
    simp only [accept?] at h₁
    split at h₁
    · cases h₁
      obtain ⟨rfl, rfl⟩ := EStateM.pure_eq_ok h₂
      exact ⟨‹_›, rfl⟩
    · cases h₁; cases h₂

lemma accept?_eq_none {form : Token → Bool} {s s' : State}
    (h : accept? form s = .ok none s') : s' = s := by
  obtain ⟨rest, line, k, notes⟩ := s
  cases rest with
  | nil => cases h; rfl
  | cons u us =>
    simp only [accept?] at h
    split at h <;> cases h
    rfl

lemma accept?_eq_some {form : Token → Bool} {s s' : State} {t : Token}
    (h : accept? form s = .ok (some t) s') :
    form t ∧ s = ⟨t :: s'.rest, s'.endLine, s'.nextId, s'.diagnostics⟩ := by
  obtain ⟨rest, line, k, notes⟩ := s
  cases rest with
  | nil => cases h
  | cons u us =>
    simp only [accept?] at h
    split at h <;> cases h
    exact ⟨‹_›, rfl⟩

lemma peek?_eq_ok {s s' : State} {r : Option Token} (h : peek? s = .ok r s') :
    s' = s ∧ s.rest.head? = r := by
  cases h
  exact ⟨rfl, rfl⟩

lemma readsFrom_peek? {s : State} {f : Option Token → Parser α}
    {R : Nat → List Token → α → Nat → List Diagnostic → Prop}
    (h : ∀ r, s.rest.head? = r → ReadsFrom s (f r) R) : ReadsFrom s (peek? >>= f) R := by
  intro a s' hrun hd
  obtain ⟨r, s₁, h₁, h₂⟩ := EStateM.bind_eq_ok hrun
  obtain ⟨rfl, hr⟩ := peek?_eq_ok h₁
  exact h r hr h₂ hd

lemma advance_eq_ok {s s' : State} {t : Token} (ht : s.rest.head? = some t)
    (h : advance s = .ok () s') :
    s = ⟨t :: s'.rest, s'.endLine, s'.nextId, s'.diagnostics⟩ := by
  obtain ⟨rest, line, k, notes⟩ := s
  cases rest with
  | nil => cases ht
  | cons u us => cases ht; cases h; rfl

lemma freshId_eq_ok {s s' : State} {id : ExprId} (h : freshId s = .ok id s') :
    s'.nextId = id + 1 ∧ s = ⟨s'.rest, s'.endLine, id, s'.diagnostics⟩ := by
  cases h
  exact ⟨rfl, rfl⟩

/-- A node that takes the next number when everything below it has been read. -/
lemma node_eq_ok {make : ExprId → α} {s s' : State} {a : α}
    (h : (do return make (← freshId) : Parser α) s = .ok a s') :
    ∃ k, s = ⟨s'.rest, s'.endLine, k, s'.diagnostics⟩ ∧ a = make k ∧ s'.nextId = k + 1 := by
  obtain ⟨id, s₁, h₁, h₂⟩ := EStateM.bind_eq_ok h
  obtain ⟨hid, rfl⟩ := freshId_eq_ok h₁
  obtain ⟨rfl, rfl⟩ := EStateM.pure_eq_ok h₂
  exact ⟨id, rfl, rfl, hid⟩

lemma isKeyword_of_kind {t : Token} {k : Keyword} (h : t.kind = .keyword k) : t.isKeyword k := by
  simp [Token.isKeyword, h]

lemma isSymbol_of_kind {t : Token} {s : Symbol} (h : t.kind = .symbol s) : t.isSymbol s := by
  simp [Token.isSymbol, h]

lemma isIdentifier_of_kind {t : Token} (h : t.kind = .identifier) : t.isIdentifier := by
  simp [Token.isIdentifier, h]

lemma literal_reads {s : State} {t : Token} {value : Literal} (ht : s.rest.head? = some t)
    (hvalue : Literal.ofKind? t.kind = some value) : ReadsFrom s (literal value) Primary := by
  intro e s' h hd
  obtain ⟨_, s₁, h₁, h₂⟩ := EStateM.bind_eq_ok h
  obtain ⟨k, rfl, rfl, hk⟩ := node_eq_ok h₂
  have hs := advance_eq_ok ht h₁
  refine ⟨[t], k, by rw [hs, hd]; rfl, ?_⟩
  rw [hk]
  exact .literal hvalue

lemma primary_reads {inner : Parser Expr} (hinner : Reads inner Expression) :
    Reads (primary inner) Primary := by
  intro s
  apply readsFrom_peek?
  intro r hr
  cases r with
  | none => intro e s' h hd; cases h
  | some t =>
    dsimp only
    split
    case h_1 hk => exact literal_reads hr (by rw [hk]; rfl)
    case h_2 hk => exact literal_reads hr (by rw [hk]; rfl)
    case h_3 hk => exact literal_reads hr (by rw [hk]; rfl)
    case h_4 hk => exact literal_reads hr (by rw [hk]; rfl)
    case h_5 hk => exact literal_reads hr (by rw [hk]; rfl)
    case h_6 hk => -- `super`, a dot and a name
      intro e s' h hd
      obtain ⟨_, s₁, h₁, h⟩ := EStateM.bind_eq_ok h
      obtain ⟨dot, s₂, h₂, h⟩ := EStateM.bind_eq_ok h
      obtain ⟨method, s₃, h₃, h⟩ := EStateM.bind_eq_ok h
      obtain ⟨k, rfl, rfl, hn⟩ := node_eq_ok h
      obtain ⟨hmethod, rfl⟩ := expect_eq_ok h₃
      obtain ⟨hdot, rfl⟩ := expect_eq_ok h₂
      have hs := advance_eq_ok hr h₁
      refine ⟨[t, dot, method], k, by rw [hs, hd]; rfl, ?_⟩
      rw [hn]
      exact .super (isKeyword_of_kind hk) hdot hmethod
    case h_7 hk =>
      intro e s' h hd
      obtain ⟨_, s₁, h₁, h⟩ := EStateM.bind_eq_ok h
      obtain ⟨k, rfl, rfl, hn⟩ := node_eq_ok h
      have hs := advance_eq_ok hr h₁
      refine ⟨[t], k, by rw [hs, hd]; rfl, ?_⟩
      rw [hn]
      exact .this (isKeyword_of_kind hk)
    case h_8 hk =>
      intro e s' h hd
      obtain ⟨_, s₁, h₁, h⟩ := EStateM.bind_eq_ok h
      obtain ⟨k, rfl, rfl, hn⟩ := node_eq_ok h
      have hs := advance_eq_ok hr h₁
      refine ⟨[t], k, by rw [hs, hd]; rfl, ?_⟩
      rw [hn]
      exact .var (isIdentifier_of_kind hk)
    case h_9 hk => -- an expression in parentheses
      intro e s' h hd
      obtain ⟨_, s₁, h₁, h⟩ := EStateM.bind_eq_ok h
      obtain ⟨e, s₂, h₂, h⟩ := EStateM.bind_eq_ok h
      obtain ⟨closing, s₃, h₃, h⟩ := EStateM.bind_eq_ok h
      obtain ⟨k, rfl, rfl, hn⟩ := node_eq_ok h
      obtain ⟨hclosing, rfl⟩ := expect_eq_ok h₃
      obtain ⟨ts, k', rfl, he⟩ := hinner _ h₂ hd
      have hs := advance_eq_ok hr h₁
      refine ⟨t :: ts ++ [closing], k', by rw [hs]; simp, ?_⟩
      rw [hn]
      exact .grouping (isSymbol_of_kind hk) he hclosing
    case h_10 => intro e s' h hd; cases h

/-- The note at an entry past the limit. -/
def noteOverlong (tooMany : SyntaxFault) (count : Nat) : Parser Unit :=
  if maxEntries ≤ count then noteHere tooMany else pure ()

/-- What follows the first entry of a list. -/
def furtherEntries (entry : Parser α) (tooMany : SyntaxFault) (count : Nat) (first : α) :
    Nat → Parser (List α)
  | 0 => return [first]
  | room + 1 => do
    match ← accept? (·.isSymbol .comma) with
    | none => return [first]
    | some _ => return first :: (← entries entry tooMany room (count + 1))

lemma entries_eq (entry : Parser α) (tooMany : SyntaxFault) (room count : Nat) :
    entries entry tooMany room count = (do
      noteOverlong tooMany count
      let first ← entry
      furtherEntries entry tooMany count first room) := by
  rw [entries]
  by_cases h : maxEntries ≤ count
  · simp only [noteOverlong, if_pos h]
    cases room <;> rfl
  · simp only [noteOverlong, if_neg h]
    cases room <;> rfl

lemma noteOverlong_eq_ok {tooMany : SyntaxFault} {count : Nat} {s s' : State}
    (h : noteOverlong tooMany count s = .ok () s') (hd : s'.diagnostics = []) :
    count < maxEntries ∧ s = s' := by
  unfold noteOverlong at h
  split at h
  · cases h
    simp at hd
  · obtain ⟨-, rfl⟩ := EStateM.pure_eq_ok h
    exact ⟨by omega, rfl⟩

/-- Lists divided by commas, for any relation of the two shapes that such a list has. -/
lemma entries_reads {entry : Parser α} {tooMany : SyntaxFault}
    {E : Nat → List Token → α → Nat → List Diagnostic → Prop}
    {L : Nat → Nat → List Token → List α → Nat → List Diagnostic → Prop}
    (hentry : Reads entry E)
    (hlast : ∀ {count k ts a k'}, count < maxEntries → E k ts a k' [] → L count k ts [a] k' [])
    (hmore : ∀ {count k ts a k₁ comma us as k'}, count < maxEntries → E k ts a k₁ [] →
      comma.isSymbol .comma → L (count + 1) k₁ us as k' [] →
      L count k (ts ++ comma :: us) (a :: as) k' [])
    (room count : Nat) : Reads (entries entry tooMany room count) (L count) := by
  induction room generalizing count with
  | zero =>
    intro s as s' h hd
    rw [entries_eq] at h
    obtain ⟨_, s₁, h₁, h⟩ := EStateM.bind_eq_ok h
    obtain ⟨a, s₂, h₂, h⟩ := EStateM.bind_eq_ok h
    obtain ⟨rfl, rfl⟩ := EStateM.pure_eq_ok h
    obtain ⟨ts, k, rfl, ha⟩ := hentry _ h₂ hd
    obtain ⟨hcount, rfl⟩ := noteOverlong_eq_ok h₁ rfl
    exact ⟨ts, k, rfl, hlast hcount ha⟩
  | succ room ih =>
    intro s as s' h hd
    rw [entries_eq] at h
    obtain ⟨_, s₁, h₁, h⟩ := EStateM.bind_eq_ok h
    obtain ⟨a, s₂, h₂, h⟩ := EStateM.bind_eq_ok h
    obtain ⟨r, s₃, h₃, h⟩ := EStateM.bind_eq_ok h
    cases r with
    | none =>
      obtain ⟨rfl, rfl⟩ := EStateM.pure_eq_ok h
      obtain rfl := accept?_eq_none h₃
      obtain ⟨ts, k, rfl, ha⟩ := hentry _ h₂ hd
      obtain ⟨hcount, rfl⟩ := noteOverlong_eq_ok h₁ rfl
      exact ⟨ts, k, rfl, hlast hcount ha⟩
    | some comma =>
      obtain ⟨as, s₄, h₄, h⟩ := EStateM.bind_eq_ok h
      obtain ⟨rfl, rfl⟩ := EStateM.pure_eq_ok h
      obtain ⟨us, k₁, rfl, has⟩ := ih (count + 1) _ h₄ hd
      obtain ⟨hcomma, rfl⟩ := accept?_eq_some h₃
      obtain ⟨ts, k, rfl, ha⟩ := hentry _ h₂ rfl
      obtain ⟨hcount, rfl⟩ := noteOverlong_eq_ok h₁ rfl
      exact ⟨_, k, by simp, hmore hcount ha hcomma has⟩

lemma entriesOrNone_reads {entry : Parser α} {tooMany : SyntaxFault} {room : Nat}
    {L : Nat → Nat → List Token → List α → Nat → List Diagnostic → Prop}
    {A : Nat → List Token → List α → Nat → List Diagnostic → Prop}
    (hentries : Reads (entries entry tooMany room 0) (L 0))
    (hnone : ∀ {k}, A k [] [] k []) (hsome : ∀ {k ts as k'}, L 0 k ts as k' [] → A k ts as k' []) :
    Reads (entriesOrNone entry tooMany room) A := by
  intro s as s' h hd
  obtain ⟨b, s₁, h₁, h⟩ := EStateM.bind_eq_ok h
  cases h₁
  cases hb : s.rest.head?.any (·.isSymbol .rightParen) with
  | true =>
    rw [hb] at h
    obtain ⟨rfl, rfl⟩ := EStateM.pure_eq_ok h
    exact ⟨[], s.nextId, by rw [← hd]; rfl, hnone⟩
  | false =>
    rw [hb] at h
    obtain ⟨ts, k, hs, has⟩ := hentries _ h hd
    exact ⟨ts, k, hs, hsome has⟩

lemma overlong_of_lt {cause : SyntaxFault} {count : Nat} {ts : List Token}
    (h : count < maxEntries) : overlong cause count ts = [] :=
  if_neg (by omega)

lemma arguments_reads {inner : Parser Expr} (hinner : Reads inner Expression) (room : Nat) :
    Reads (entriesOrNone inner .tooManyArguments room) Arguments := by
  apply entriesOrNone_reads (L := Entries)
  · apply entries_reads hinner
    · intro count k ts e k' hcount he
      simpa [overlong_of_lt hcount] using @Entries.last count _ _ _ _ _ he
    · intro count k ts e k₁ comma us es k' hcount he hcomma hes
      simpa [overlong_of_lt hcount] using @Entries.more count _ _ _ _ _ _ _ _ _ _ he hcomma hes
  · exact .none
  · exact .some

/-- The suffixes after an expression extend any reading of it. -/
lemma suffixes_reads {inner : Parser Expr} (hinner : Reads inner Expression) (room : Nat)
    (e : Expr) : Reads (suffixes inner room e) fun k us e' k' _ =>
      ∀ k₀ ts, Call k₀ ts e k [] → Call k₀ (ts ++ us) e' k' [] := by
  induction room generalizing e with
  | zero =>
    intro s e' s' h hd
    obtain ⟨rfl, rfl⟩ := EStateM.pure_eq_ok h
    exact ⟨[], s.nextId, by rw [← hd]; rfl, fun k₀ ts he => by simpa using he⟩
  | succ room ih =>
    intro s e' s' h hd
    obtain ⟨r, s₁, h₁, h⟩ := EStateM.bind_eq_ok h
    cases r with
    | some opening =>
      obtain ⟨arguments, s₂, h₂, h⟩ := EStateM.bind_eq_ok h
      obtain ⟨closing, s₃, h₃, h⟩ := EStateM.bind_eq_ok h
      obtain ⟨id, s₄, h₄, h⟩ := EStateM.bind_eq_ok h
      obtain ⟨us, k, rfl, hus⟩ := ih _ _ h hd
      obtain ⟨rfl, rfl⟩ := freshId_eq_ok h₄
      obtain ⟨hclosing, rfl⟩ := expect_eq_ok h₃
      obtain ⟨args, k, rfl, hargs⟩ := arguments_reads hinner room _ h₂ rfl
      obtain ⟨hopening, rfl⟩ := accept?_eq_some h₁
      refine ⟨opening :: args ++ closing :: us, k, by simp, ?_⟩
      intro k₀ ts he
      simpa using hus k₀ _ (.call he hopening hargs hclosing)
    | none =>
      rw [accept?_eq_none h₁] at h
      obtain ⟨r, s₂, h₂, h⟩ := EStateM.bind_eq_ok h
      cases r with
      | some dot =>
        obtain ⟨name, s₃, h₃, h⟩ := EStateM.bind_eq_ok h
        obtain ⟨id, s₄, h₄, h⟩ := EStateM.bind_eq_ok h
        obtain ⟨us, k, rfl, hus⟩ := ih _ _ h hd
        obtain ⟨rfl, rfl⟩ := freshId_eq_ok h₄
        obtain ⟨hname, rfl⟩ := expect_eq_ok h₃
        obtain ⟨hdot, rfl⟩ := accept?_eq_some h₂
        refine ⟨dot :: name :: us, id, by simp, ?_⟩
        intro k₀ ts he
        simpa using hus k₀ _ (.get he hdot hname)
      | none =>
        rw [accept?_eq_none h₂] at h
        obtain ⟨rfl, rfl⟩ := EStateM.pure_eq_ok h
        exact ⟨[], s.nextId, by rw [← hd]; rfl, fun k₀ ts he => by simpa using he⟩

lemma call_reads {inner : Parser Expr} (hinner : Reads inner Expression) (room : Nat) :
    Reads (call room inner) Call := by
  intro s e s' h hd
  obtain ⟨e₁, s₁, h₁, h⟩ := EStateM.bind_eq_ok h
  obtain ⟨us, k₁, rfl, hus⟩ := suffixes_reads hinner room e₁ _ h hd
  obtain ⟨ts, k, rfl, hts⟩ := primary_reads hinner _ h₁ rfl
  exact ⟨ts ++ us, k, by simp, hus k ts (.primary hts)⟩

lemma signs_eq_ok {room : Nat} {s s' : State} {ops : List (UnaryOp × Token)}
    (h : signs room s = .ok ops s') :
    s = ⟨ops.map Prod.snd ++ s'.rest, s'.endLine, s'.nextId, s'.diagnostics⟩ ∧
      ∀ op ∈ ops, UnaryOp.ofKind? op.2.kind = some op.1 := by
  induction room generalizing s s' ops with
  | zero =>
    obtain ⟨rfl, rfl⟩ := EStateM.pure_eq_ok h
    exact ⟨rfl, by simp⟩
  | succ room ih =>
    obtain ⟨r, s₁, h₁, h⟩ := EStateM.bind_eq_ok h
    cases r with
    | none =>
      rw [accept?_eq_none h₁] at h
      obtain ⟨rfl, rfl⟩ := EStateM.pure_eq_ok h
      exact ⟨rfl, by simp⟩
    | some t =>
      obtain ⟨inner, s₂, h₂, h⟩ := EStateM.bind_eq_ok h
      obtain ⟨rfl, rfl⟩ := EStateM.pure_eq_ok h
      obtain ⟨rfl, hops⟩ := ih h₂
      obtain ⟨ht, rfl⟩ := accept?_eq_some h₁
      obtain ⟨op, hop⟩ := Option.isSome_iff_exists.mp ht
      refine ⟨by simp [hop], ?_⟩
      intro op' hop'
      simp only [hop, Option.toList_some, List.map_cons, List.map_nil, List.singleton_append,
        List.mem_cons] at hop'
      rcases hop' with rfl | hop'
      · exact hop
      · exact hops op' hop'

/-- The signs in front of an expression extend any reading of it. -/
lemma signed_reads (ops : List (UnaryOp × Token)) (e : Expr)
    (hops : ∀ op ∈ ops, UnaryOp.ofKind? op.2.kind = some op.1) :
    Reads (signed ops e) fun k us e' k' _ => us = [] ∧
      ∀ k₀ ts, Unary k₀ ts e k [] → Unary k₀ (ops.map Prod.snd ++ ts) e' k' [] := by
  induction ops with
  | nil =>
    intro s e' s' h hd
    obtain ⟨rfl, rfl⟩ := EStateM.pure_eq_ok h
    exact ⟨[], s.nextId, by rw [← hd]; rfl, rfl, fun k₀ ts he => by simpa using he⟩
  | cons op ops ih =>
    obtain ⟨op, t⟩ := op
    intro s e' s' h hd
    obtain ⟨operand, s₁, h₁, h⟩ := EStateM.bind_eq_ok h
    obtain ⟨k₁, rfl, rfl, hn⟩ := node_eq_ok h
    obtain ⟨us, k, rfl, rfl, hus⟩ := ih (fun op hop => hops op (List.mem_cons_of_mem _ hop)) _ h₁ hd
    refine ⟨[], k, rfl, rfl, ?_⟩
    intro k₀ ts he
    rw [hn]
    exact .sign (hops (op, t) List.mem_cons_self) (hus k₀ ts he)

lemma unary_reads {inner : Parser Expr} (hinner : Reads inner Expression) (room : Nat) :
    Reads (unary room inner) Unary := by
  intro s e s' h hd
  obtain ⟨ops, s₁, h₁, h⟩ := EStateM.bind_eq_ok h
  obtain ⟨e₁, s₂, h₂, h⟩ := EStateM.bind_eq_ok h
  obtain ⟨us, k₁, rfl, rfl, hus⟩ := signed_reads ops e₁ (signs_eq_ok h₁).2 _ h hd
  obtain ⟨vs, k, rfl, hvs⟩ := call_reads hinner room _ h₂ rfl
  obtain ⟨rfl, -⟩ := signs_eq_ok h₁
  exact ⟨_, k, by simp, hus k vs (.call hvs)⟩

/-- The operands after an expression extend any reading of it. -/
lemma operands_reads {p : Precedence} {ps : List Precedence} {operand : Parser Expr}
    (hoperand : Reads operand (Operation ps)) (room : Nat) (left : Expr) :
    Reads (operands p operand room left) fun k us e k' _ =>
      ∀ k₀ ts, Operation (p :: ps) k₀ ts left k [] → Operation (p :: ps) k₀ (ts ++ us) e k' [] := by
  induction room generalizing left with
  | zero =>
    intro s e s' h hd
    obtain ⟨rfl, rfl⟩ := EStateM.pure_eq_ok h
    exact ⟨[], s.nextId, by rw [← hd]; rfl, fun k₀ ts he => by simpa using he⟩
  | succ room ih =>
    intro s
    have stop : ReadsFrom s (pure left) fun k us e k' _ => ∀ k₀ ts,
        Operation (p :: ps) k₀ ts left k [] → Operation (p :: ps) k₀ (ts ++ us) e k' [] := by
      intro e s' h hd
      obtain ⟨rfl, rfl⟩ := EStateM.pure_eq_ok h
      exact ⟨[], s.nextId, by rw [← hd]; rfl, fun k₀ ts he => by simpa using he⟩
    apply readsFrom_peek?
    intro r hr
    cases r with
    | none => exact stop
    | some t =>
      dsimp only
      split
      case h_1 => exact stop
      case h_2 op hop =>
        intro e s' h hd
        obtain ⟨_, s₁, h₁, h⟩ := EStateM.bind_eq_ok h
        obtain ⟨right, s₂, h₂, h⟩ := EStateM.bind_eq_ok h
        obtain ⟨id, s₃, h₃, h⟩ := EStateM.bind_eq_ok h
        obtain ⟨us, k₁, rfl, hus⟩ := ih _ _ h hd
        obtain ⟨rfl, rfl⟩ := freshId_eq_ok h₃
        obtain ⟨vs, k, rfl, hvs⟩ := hoperand _ h₂ rfl
        obtain rfl := advance_eq_ok hr h₁
        refine ⟨t :: vs ++ us, k, by simp, ?_⟩
        intro k₀ ts he
        simpa using hus k₀ _ (.apply he hop hvs)

lemma operation_reads {p : Precedence} {ps : List Precedence} {operand : Parser Expr}
    (hoperand : Reads operand (Operation ps)) (room : Nat) :
    Reads (operation room operand p) (Operation (p :: ps)) := by
  intro s e s' h hd
  obtain ⟨first, s₁, h₁, h⟩ := EStateM.bind_eq_ok h
  obtain ⟨us, k₁, rfl, hus⟩ := operands_reads hoperand room first _ h hd
  obtain ⟨ts, k, rfl, hts⟩ := hoperand _ h₁ rfl
  exact ⟨ts ++ us, k, by simp, hus k ts (.operand hts)⟩

lemma operations_reads {inner : Parser Expr} (hinner : Reads inner Expression) (room : Nat) :
    Reads (operations room inner) (Operation Precedence.tower) := by
  have hunary : Reads (unary room inner) (Operation []) := by
    intro s e s' h hd
    obtain ⟨ts, k, hs, he⟩ := unary_reads hinner room s h hd
    exact ⟨ts, k, hs, .unary he⟩
  exact operation_reads (operation_reads (operation_reads (operation_reads (operation_reads
    (operation_reads hunary room) room) room) room) room) room

lemma assignment_reads {inner : Parser Expr} (hinner : Reads inner Expression) (room : Nat) :
    Reads (assignment room inner) Expression := by
  intro s e s' h hd
  obtain ⟨target, s₁, h₁, h⟩ := EStateM.bind_eq_ok h
  obtain ⟨r, s₂, h₂, h⟩ := EStateM.bind_eq_ok h
  cases r with
  | none =>
    rw [accept?_eq_none h₂] at h
    obtain ⟨rfl, rfl⟩ := EStateM.pure_eq_ok h
    obtain ⟨ts, k, rfl, hts⟩ := operations_reads hinner room _ h₁ hd
    exact ⟨ts, k, rfl, .operation hts⟩
  | some sign =>
    obtain ⟨value, s₃, h₃, h⟩ := EStateM.bind_eq_ok h
    cases target with
    | var i name =>
      obtain ⟨k₂, rfl, rfl, hn⟩ := node_eq_ok h
      obtain ⟨us, k₁, rfl, hus⟩ := hinner _ h₃ hd
      obtain ⟨hsign, rfl⟩ := accept?_eq_some h₂
      obtain ⟨ts, k, rfl, hts⟩ := operations_reads hinner room _ h₁ rfl
      refine ⟨ts ++ sign :: us, k, by simp, ?_⟩
      rw [hn]
      exact .assign hts hsign hus
    | get i object name =>
      obtain ⟨k₂, rfl, rfl, hn⟩ := node_eq_ok h
      obtain ⟨us, k₁, rfl, hus⟩ := hinner _ h₃ hd
      obtain ⟨hsign, rfl⟩ := accept?_eq_some h₂
      obtain ⟨ts, k, rfl, hts⟩ := operations_reads hinner room _ h₁ rfl
      refine ⟨ts ++ sign :: us, k, by simp, ?_⟩
      rw [hn]
      exact .set hts hsign hus
    | _ =>
      -- any other left side has left a note
      obtain ⟨_, s₄, h₄, h⟩ := EStateM.bind_eq_ok h
      cases h₄
      obtain ⟨rfl, rfl⟩ := EStateM.pure_eq_ok h
      simp at hd

/-- Expressions, by induction on the room: what stands inside one is read with less. -/
lemma expression_reads (room : Nat) : Reads (expression room) Expression := by
  induction room with
  | zero => intro s e s' h hd; cases h
  | succ room ih => exact assignment_reads ih (room + 1)

lemma terminated_reads (room : Nat) (cause : SyntaxFault) :
    Reads (terminated room cause) fun k ts e k' ds => ∃ us semicolon, ts = us ++ [semicolon] ∧
      semicolon.isSymbol .semicolon ∧ Expression k us e k' ds := by
  intro s e s' h hd
  obtain ⟨e, s₁, h₁, h⟩ := EStateM.bind_eq_ok h
  obtain ⟨semicolon, s₂, h₂, h⟩ := EStateM.bind_eq_ok h
  obtain ⟨rfl, rfl⟩ := EStateM.pure_eq_ok h
  obtain ⟨hsemicolon, rfl⟩ := expect_eq_ok h₂
  obtain ⟨us, k, rfl, he⟩ := expression_reads room _ h₁ hd
  exact ⟨us ++ [semicolon], k, by simp, us, semicolon, rfl, hsemicolon, he⟩

lemma expressionUnless_reads (room : Nat) (stop : Symbol) :
    Reads (expressionUnless room stop) Optional := by
  intro s r s' h hd
  obtain ⟨b, s₁, h₁, h⟩ := EStateM.bind_eq_ok h
  cases h₁
  cases hb : s.rest.head?.any (·.isSymbol stop) with
  | true =>
    rw [hb] at h
    obtain ⟨rfl, rfl⟩ := EStateM.pure_eq_ok h
    exact ⟨[], s.nextId, by rw [← hd]; rfl, .none⟩
  | false =>
    rw [hb] at h
    obtain ⟨e, s₁, h₁, h⟩ := EStateM.bind_eq_ok h
    obtain ⟨rfl, rfl⟩ := EStateM.pure_eq_ok h
    obtain ⟨ts, k, hs, he⟩ := expression_reads room _ h₁ hd
    exact ⟨ts, k, hs, .some he⟩

lemma varDeclaration_reads (room : Nat) : Reads (varDeclaration room) Variable := by
  intro s d s' h hd
  obtain ⟨name, s₁, h₁, h⟩ := EStateM.bind_eq_ok h
  obtain ⟨r, s₂, h₂, h⟩ := EStateM.bind_eq_ok h
  cases r with
  | some sign =>
    obtain ⟨initializer, s₃, h₃, h⟩ := EStateM.bind_eq_ok h
    obtain ⟨semicolon, s₄, h₄, h⟩ := EStateM.bind_eq_ok h
    obtain ⟨rfl, rfl⟩ := EStateM.pure_eq_ok h
    obtain ⟨hsemicolon, rfl⟩ := expect_eq_ok h₄
    obtain ⟨e, hrun, rfl⟩ := EStateM.map_eq_ok h₃
    obtain ⟨ts, k, rfl, he⟩ := expression_reads room _ hrun hd
    obtain ⟨hsign, rfl⟩ := accept?_eq_some h₂
    obtain ⟨hname, rfl⟩ := expect_eq_ok h₁
    exact ⟨name :: sign :: ts ++ [semicolon], k, by simp, .initialized hname hsign he hsemicolon⟩
  | none =>
    obtain ⟨initializer, s₃, h₃, h⟩ := EStateM.bind_eq_ok h
    obtain ⟨semicolon, s₄, h₄, h⟩ := EStateM.bind_eq_ok h
    obtain ⟨rfl, rfl⟩ := EStateM.pure_eq_ok h
    obtain ⟨rfl, rfl⟩ := EStateM.pure_eq_ok h₃
    obtain ⟨hsemicolon, rfl⟩ := expect_eq_ok h₄
    obtain rfl := accept?_eq_none h₂
    obtain ⟨hname, rfl⟩ := expect_eq_ok h₁
    exact ⟨[name, semicolon], _, by rw [← hd]; rfl, .plain hname hsemicolon⟩

/-- Declarations up to a stop, for any relation of the two shapes that a list of items has. -/
lemma itemsUntil_reads {stop : Token → Bool} {item : Parser (Option α)}
    {E : Nat → List Token → α → Nat → List Diagnostic → Prop}
    {L : Nat → List Token → List α → Nat → List Diagnostic → Prop}
    (hitem : Reads item fun k ts r k' ds => ∃ a, r = some a ∧ E k ts a k' ds)
    (hnil : ∀ {k}, L k [] [] k [])
    (hcons : ∀ {k ts a k₁ us as k'}, E k ts a k₁ [] → L k₁ us as k' [] →
      L k (ts ++ us) (a :: as) k' []) (room : Nat) : Reads (itemsUntil stop item room) L := by
  have none : ∀ s, ReadsFrom s (pure [] : Parser (List α)) L := by
    intro s as s' h hd
    obtain ⟨rfl, rfl⟩ := EStateM.pure_eq_ok h
    exact ⟨[], s.nextId, by rw [← hd]; rfl, hnil⟩
  induction room with
  | zero => exact none
  | succ room ih =>
    intro s
    apply readsFrom_peek?
    intro r hr
    cases r with
    | none => exact none s
    | some t =>
      dsimp only
      split
      · exact none s
      · intro as s' h hd
        obtain ⟨first, s₁, h₁, h⟩ := EStateM.bind_eq_ok h
        obtain ⟨rest, s₂, h₂, h⟩ := EStateM.bind_eq_ok h
        obtain ⟨rfl, rfl⟩ := EStateM.pure_eq_ok h
        obtain ⟨us, k₁, rfl, hus⟩ := ih _ h₂ hd
        obtain ⟨ts, k, rfl, a, rfl, ha⟩ := hitem _ h₁ rfl
        exact ⟨ts ++ us, k, by simp, hcons ha hus⟩

/-- What a declaration or statement is read as, if it is not skipped. -/
def DeclarationRead (k : Nat) (ts : List Token) (r : Option Stmt) (k' : Nat)
    (ds : List Diagnostic) : Prop :=
  ∃ s, r = some s ∧ ∃ dangling, Declaration dangling k ts s k' ds

lemma declarations_reads (stop : Token → Bool) {item : Parser (Option Stmt)}
    (hitem : Reads item DeclarationRead) (room : Nat) :
    Reads (itemsUntil stop item room) Declarations :=
  itemsUntil_reads (E := fun k ts s k' ds => ∃ dangling, Declaration dangling k ts s k' ds)
    hitem .nil (fun ⟨_, ha⟩ has => .cons ha has) room

lemma block_reads {item : Parser (Option Stmt)} (hitem : Reads item DeclarationRead) (room : Nat) :
    Reads (block room item) fun k ts body k' ds => ∃ us closing, ts = us ++ [closing] ∧
      closing.isSymbol .rightBrace ∧ Declarations k us body k' ds := by
  intro s body s' h hd
  obtain ⟨body, s₁, h₁, h⟩ := EStateM.bind_eq_ok h
  obtain ⟨closing, s₂, h₂, h⟩ := EStateM.bind_eq_ok h
  obtain ⟨rfl, rfl⟩ := EStateM.pure_eq_ok h
  obtain ⟨hclosing, rfl⟩ := expect_eq_ok h₂
  obtain ⟨us, k, rfl, hus⟩ := declarations_reads _ hitem room _ h₁ hd
  exact ⟨us ++ [closing], k, by simp, us, closing, rfl, hclosing, hus⟩

lemma parameters_reads (room : Nat) :
    Reads (entriesOrNone (expect (·.isIdentifier) .parameterNameExpected) .tooManyParameters room)
      fun k ts params k' ds => k' = k ∧ Parameters ts params ds := by
  apply entriesOrNone_reads (L := fun count k ts params k' ds =>
    k' = k ∧ Names count ts params ds)
  · apply entries_reads (E := fun k ts t k' _ => k' = k ∧ ts = [t] ∧ t.isIdentifier)
      (L := fun count k ts params k' ds => k' = k ∧ Names count ts params ds)
    · intro s t s' h hd
      obtain ⟨ht, rfl⟩ := expect_eq_ok h
      exact ⟨[t], s'.nextId, by rw [hd]; rfl, rfl, rfl, ht⟩
    · rintro count k ts t k' hcount ⟨rfl, rfl, ht⟩
      have hnames := @Names.last count _ ht
      rw [overlong_of_lt hcount] at hnames
      exact ⟨rfl, hnames⟩
    · rintro count k ts t k₁ comma us names k' hcount ⟨rfl, rfl, ht⟩ hcomma ⟨rfl, hnames⟩
      have hmore := @Names.more count _ _ _ _ _ ht hcomma hnames
      rw [overlong_of_lt hcount] at hmore
      exact ⟨rfl, hmore⟩
  · exact ⟨rfl, .none⟩
  · rintro k ts params k' ⟨rfl, hnames⟩
    exact ⟨rfl, .some hnames⟩

lemma routine_reads {item : Parser (Option Stmt)} (hitem : Reads item DeclarationRead) (room : Nat)
    (kind : Routine) : Reads (routine room kind item) Function := by
  intro s decl s' h hd
  obtain ⟨name, s₁, h₁, h⟩ := EStateM.bind_eq_ok h
  obtain ⟨opening, s₂, h₂, h⟩ := EStateM.bind_eq_ok h
  obtain ⟨params, s₃, h₃, h⟩ := EStateM.bind_eq_ok h
  obtain ⟨closing, s₄, h₄, h⟩ := EStateM.bind_eq_ok h
  obtain ⟨brace, s₅, h₅, h⟩ := EStateM.bind_eq_ok h
  obtain ⟨body, s₆, h₆, h⟩ := EStateM.bind_eq_ok h
  obtain ⟨rfl, rfl⟩ := EStateM.pure_eq_ok h
  obtain ⟨_, k, rfl, us, closing', rfl, hclosing', hbody⟩ := block_reads hitem room _ h₆ hd
  obtain ⟨hbrace, rfl⟩ := expect_eq_ok h₅
  obtain ⟨hclosing, rfl⟩ := expect_eq_ok h₄
  obtain ⟨ts, k, rfl, rfl, hparams⟩ := parameters_reads room _ h₃ rfl
  obtain ⟨hopening, rfl⟩ := expect_eq_ok h₂
  obtain ⟨hname, rfl⟩ := expect_eq_ok h₁
  exact ⟨name :: opening :: ts ++ closing :: brace :: us ++ [closing'], k, by simp,
    .mk hname hopening hparams hclosing hbrace hbody hclosing'⟩

lemma superclass_reads :
    Reads superclass fun k ts parent k' _ => Superclass k ts parent k' := by
  intro s parent s' h hd
  obtain ⟨r, s₁, h₁, h⟩ := EStateM.bind_eq_ok h
  cases r with
  | none =>
    rw [accept?_eq_none h₁] at h
    obtain ⟨rfl, rfl⟩ := EStateM.pure_eq_ok h
    exact ⟨[], s.nextId, by rw [← hd]; rfl, .none⟩
  | some sign =>
    obtain ⟨name, s₂, h₂, h⟩ := EStateM.bind_eq_ok h
    obtain ⟨k, rfl, rfl, hn⟩ := node_eq_ok h
    obtain ⟨hname, rfl⟩ := expect_eq_ok h₂
    obtain ⟨hsign, rfl⟩ := accept?_eq_some h₁
    refine ⟨[sign, name], k, by rw [hd]; rfl, ?_⟩
    rw [hn]
    exact .some hsign hname

lemma classDeclaration_reads {item : Parser (Option Stmt)} (hitem : Reads item DeclarationRead)
    (room : Nat) : Reads (classDeclaration room item) fun k ts d k' ds =>
      ∀ keyword : Token, keyword.isKeyword .klasse →
        Declaration false k (keyword :: ts) d k' ds := by
  intro s d s' h hd
  obtain ⟨name, s₁, h₁, h⟩ := EStateM.bind_eq_ok h
  obtain ⟨parent, s₂, h₂, h⟩ := EStateM.bind_eq_ok h
  obtain ⟨opening, s₃, h₃, h⟩ := EStateM.bind_eq_ok h
  obtain ⟨methods, s₄, h₄, h⟩ := EStateM.bind_eq_ok h
  obtain ⟨closing, s₅, h₅, h⟩ := EStateM.bind_eq_ok h
  obtain ⟨rfl, rfl⟩ := EStateM.pure_eq_ok h
  obtain ⟨hclosing, rfl⟩ := expect_eq_ok h₅
  have hmethod : Reads (some <$> routine room .method item) fun k ts r k' ds =>
      ∃ decl, r = some decl ∧ Function k ts decl k' ds := by
    intro s r s' h hd
    obtain ⟨decl, hrun, rfl⟩ := EStateM.map_eq_ok h
    obtain ⟨ts, k, hs, hdecl⟩ := routine_reads hitem room .method _ hrun hd
    exact ⟨ts, k, hs, decl, rfl, hdecl⟩
  obtain ⟨us, k₁, rfl, hmethods⟩ :=
    itemsUntil_reads (L := Functions) hmethod .nil .cons room _ h₄ hd
  obtain ⟨hopening, rfl⟩ := expect_eq_ok h₃
  obtain ⟨ts, k, rfl, hparent⟩ := superclass_reads _ h₂ rfl
  obtain ⟨hname, rfl⟩ := expect_eq_ok h₁
  refine ⟨name :: ts ++ opening :: us ++ [closing], k, by simp, ?_⟩
  intro keyword hkeyword
  exact .classDecl hkeyword hname hparent hopening hmethods hclosing

lemma forInitializer_reads (room : Nat) : Reads (forInitializer room) Initializer := by
  intro s r s' h hd
  obtain ⟨r₁, s₁, h₁, h⟩ := EStateM.bind_eq_ok h
  cases r₁ with
  | some semicolon =>
    obtain ⟨rfl, rfl⟩ := EStateM.pure_eq_ok h
    obtain ⟨hsemicolon, rfl⟩ := accept?_eq_some h₁
    exact ⟨[semicolon], _, by rw [hd]; rfl, .none hsemicolon⟩
  | none =>
    rw [accept?_eq_none h₁] at h
    obtain ⟨r₂, s₂, h₂, h⟩ := EStateM.bind_eq_ok h
    cases r₂ with
    | some keyword =>
      obtain ⟨d, hrun, rfl⟩ := EStateM.map_eq_ok h
      obtain ⟨ts, k, rfl, hvar⟩ := varDeclaration_reads room _ hrun hd
      obtain ⟨hkeyword, rfl⟩ := accept?_eq_some h₂
      exact ⟨keyword :: ts, k, by simp, .varDecl hkeyword hvar⟩
    | none =>
      rw [accept?_eq_none h₂] at h
      obtain ⟨d, hrun, rfl⟩ := EStateM.map_eq_ok h
      obtain ⟨e, s₃, h₃, h⟩ := EStateM.bind_eq_ok hrun
      obtain ⟨rfl, rfl⟩ := EStateM.pure_eq_ok h
      obtain ⟨ts, k, hs, us, semicolon, rfl, hsemicolon, he⟩ := terminated_reads room _ _ h₃ hd
      exact ⟨us ++ [semicolon], k, hs, .expression he hsemicolon⟩

/-- If a parser ends with nothing noted from a state on, it has read the rest of a statement of
which some tokens were read before; no `sonst` follows if the statement dangles. -/
def ReadsStatementFrom (s : State) (before : List Token) (p : Parser Stmt) : Prop :=
  ∀ ⦃d s'⦄, p s = .ok d s' → s'.diagnostics = [] →
    ∃ ts k dangling, s = ⟨ts ++ s'.rest, s'.endLine, k, []⟩ ∧
      Statement dangling k (before ++ ts) d s'.nextId [] ∧
      (dangling = true → s'.rest.head?.any (·.isKeyword .sonst) = false)

def ReadsStatement (p : Parser Stmt) : Prop :=
  ∀ s, ReadsStatementFrom s [] p

lemma readsStatementFrom_advance {s : State} {t : Token} {p : Parser Stmt}
    (ht : s.rest.head? = some t) (h : ∀ s, ReadsStatementFrom s [t] p) :
    ReadsStatementFrom s [] (advance >>= fun _ => p) := by
  intro d s' hrun hd
  obtain ⟨_, s₁, h₁, h₂⟩ := EStateM.bind_eq_ok hrun
  obtain ⟨ts, k, dangling, rfl, hts, hnext⟩ := h s₁ h₂ hd
  obtain rfl := advance_eq_ok ht h₁
  exact ⟨t :: ts, k, dangling, rfl, hts, hnext⟩

lemma expressionStatement_reads (room : Nat) : ReadsStatement (expressionStatement room) := by
  intro s d s' h hd
  obtain ⟨e, s₁, h₁, h⟩ := EStateM.bind_eq_ok h
  obtain ⟨rfl, rfl⟩ := EStateM.pure_eq_ok h
  obtain ⟨ts, k, hs, us, semicolon, rfl, hsemicolon, he⟩ := terminated_reads room _ _ h₁ hd
  exact ⟨us ++ [semicolon], k, false, hs, .expression he hsemicolon, nofun⟩

lemma printStatement_reads (room : Nat) {keyword : Token} (hkeyword : keyword.isKeyword .drucke)
    (s : State) : ReadsStatementFrom s [keyword] (printStatement room) := by
  intro d s' h hd
  obtain ⟨e, s₁, h₁, h⟩ := EStateM.bind_eq_ok h
  obtain ⟨rfl, rfl⟩ := EStateM.pure_eq_ok h
  obtain ⟨ts, k, hs, us, semicolon, rfl, hsemicolon, he⟩ := terminated_reads room _ _ h₁ hd
  exact ⟨us ++ [semicolon], k, false, hs, .print hkeyword he hsemicolon, nofun⟩

lemma returnStatement_reads (room : Nat) {keyword : Token}
    (hkeyword : keyword.isKeyword .zurueckgeben) (s : State) :
    ReadsStatementFrom s [keyword] (returnStatement room keyword) := by
  intro d s' h hd
  obtain ⟨value, s₁, h₁, h⟩ := EStateM.bind_eq_ok h
  obtain ⟨semicolon, s₂, h₂, h⟩ := EStateM.bind_eq_ok h
  obtain ⟨rfl, rfl⟩ := EStateM.pure_eq_ok h
  obtain ⟨hsemicolon, rfl⟩ := expect_eq_ok h₂
  obtain ⟨ts, k, rfl, hvalue⟩ := expressionUnless_reads room .semicolon _ h₁ hd
  exact ⟨ts ++ [semicolon], k, false, by simp, .ret hkeyword hvalue hsemicolon, nofun⟩

lemma blockStatement_reads {item : Parser (Option Stmt)} (hitem : Reads item DeclarationRead)
    (room : Nat) {opening : Token} (hopening : opening.isSymbol .leftBrace) (s : State) :
    ReadsStatementFrom s [opening] (do return .block (← block room item)) := by
  intro d s' h hd
  obtain ⟨body, s₁, h₁, h⟩ := EStateM.bind_eq_ok h
  obtain ⟨rfl, rfl⟩ := EStateM.pure_eq_ok h
  obtain ⟨ts, k, hs, us, closing, rfl, hclosing, hbody⟩ := block_reads hitem room _ h₁ hd
  exact ⟨us ++ [closing], k, false, hs, .block hopening hbody hclosing, nofun⟩

lemma whileStatement_reads {statement : Parser Stmt} (hstatement : ReadsStatement statement)
    (room : Nat) {keyword : Token} (hkeyword : keyword.isKeyword .waehrend) (s : State) :
    ReadsStatementFrom s [keyword] (whileStatement room statement) := by
  intro d s' h hd
  obtain ⟨opening, s₁, h₁, h⟩ := EStateM.bind_eq_ok h
  obtain ⟨e, s₂, h₂, h⟩ := EStateM.bind_eq_ok h
  obtain ⟨closing, s₃, h₃, h⟩ := EStateM.bind_eq_ok h
  obtain ⟨body, s₄, h₄, h⟩ := EStateM.bind_eq_ok h
  obtain ⟨rfl, rfl⟩ := EStateM.pure_eq_ok h
  obtain ⟨us, k₁, dangling, rfl, hbody, hnext⟩ := hstatement _ h₄ hd
  obtain ⟨hclosing, rfl⟩ := expect_eq_ok h₃
  obtain ⟨ts, k, rfl, he⟩ := expression_reads room _ h₂ rfl
  obtain ⟨hopening, rfl⟩ := expect_eq_ok h₁
  exact ⟨opening :: ts ++ closing :: us, k, dangling, by simp,
    .loop hkeyword hopening he hclosing hbody, hnext⟩

lemma accept?_eq_none_not {form : Token → Bool} {s s' : State}
    (h : accept? form s = .ok none s') : s.rest.head?.any form = false := by
  obtain ⟨rest, line, k, notes⟩ := s
  cases rest with
  | nil => rfl
  | cons u us =>
    simp only [accept?] at h
    split at h
    · cases h
    · rename_i hform
      simpa using hform

lemma ifStatement_reads {statement : Parser Stmt} (hstatement : ReadsStatement statement)
    (room : Nat) {keyword : Token} (hkeyword : keyword.isKeyword .wenn) (s : State) :
    ReadsStatementFrom s [keyword] (ifStatement room statement) := by
  intro d s' h hd
  obtain ⟨opening, s₁, h₁, h⟩ := EStateM.bind_eq_ok h
  obtain ⟨e, s₂, h₂, h⟩ := EStateM.bind_eq_ok h
  obtain ⟨closing, s₃, h₃, h⟩ := EStateM.bind_eq_ok h
  obtain ⟨thenBranch, s₄, h₄, h⟩ := EStateM.bind_eq_ok h
  obtain ⟨r, s₅, h₅, h⟩ := EStateM.bind_eq_ok h
  cases r with
  | none =>
    rw [accept?_eq_none h₅] at h
    obtain ⟨rfl, rfl⟩ := EStateM.pure_eq_ok h
    obtain ⟨us, k₁, dangling, rfl, hthen, -⟩ := hstatement _ h₄ hd
    obtain ⟨hclosing, rfl⟩ := expect_eq_ok h₃
    obtain ⟨ts, k, rfl, he⟩ := expression_reads room _ h₂ rfl
    obtain ⟨hopening, rfl⟩ := expect_eq_ok h₁
    exact ⟨opening :: ts ++ closing :: us, k, true, by simp,
      .ifThen hkeyword hopening he hclosing hthen, fun _ => accept?_eq_none_not h₅⟩
  | some other =>
    obtain ⟨elseBranch, s₆, h₆, h⟩ := EStateM.bind_eq_ok h
    obtain ⟨rfl, rfl⟩ := EStateM.pure_eq_ok h
    obtain ⟨vs, k₂, dangling, rfl, helse, hnext⟩ := hstatement _ h₆ hd
    obtain ⟨hother, rfl⟩ := accept?_eq_some h₅
    obtain ⟨us, k₁, dangling', rfl, hthen, hclosed⟩ := hstatement _ h₄ rfl
    -- a `sonst` follows the branch, so the branch does not dangle
    obtain rfl : dangling' = false := by
      cases dangling' with
      | false => rfl
      | true =>
        have hnot := hclosed rfl
        rw [List.head?_cons, Option.any_some, hother] at hnot
        cases hnot
    obtain ⟨hclosing, rfl⟩ := expect_eq_ok h₃
    obtain ⟨ts, k, rfl, he⟩ := expression_reads room _ h₂ rfl
    obtain ⟨hopening, rfl⟩ := expect_eq_ok h₁
    exact ⟨opening :: ts ++ closing :: us ++ other :: vs, k, dangling, by simp,
      .ifElse hkeyword hopening he hclosing hthen hother helse, hnext⟩

lemma forStatement_reads {statement : Parser Stmt} (hstatement : ReadsStatement statement)
    (room : Nat) {keyword : Token} (hkeyword : keyword.isKeyword .fuer) (s : State) :
    ReadsStatementFrom s [keyword] (forStatement room statement) := by
  intro d s' h hd
  obtain ⟨opening, s₁, h₁, h⟩ := EStateM.bind_eq_ok h
  obtain ⟨first, s₂, h₂, h⟩ := EStateM.bind_eq_ok h
  obtain ⟨condition, s₃, h₃, h⟩ := EStateM.bind_eq_ok h
  obtain ⟨semicolon, s₄, h₄, h⟩ := EStateM.bind_eq_ok h
  obtain ⟨increment, s₅, h₅, h⟩ := EStateM.bind_eq_ok h
  obtain ⟨closing, s₆, h₆, h⟩ := EStateM.bind_eq_ok h
  obtain ⟨body, s₇, h₇, h⟩ := EStateM.bind_eq_ok h
  -- all tokens have been read; what is left puts the parts together
  have hparts : d = loopBlock (.loop (loopCondition s₇.nextId condition).1
        (loopBody body increment)) first ∧
      s' = { s₇ with nextId := (loopCondition s₇.nextId condition).2 } := by
    cases condition <;> cases increment <;> cases first <;> cases h <;> exact ⟨rfl, rfl⟩
  obtain ⟨rfl, rfl⟩ := hparts
  obtain ⟨us, k₃, dangling, rfl, hbody, hnext⟩ := hstatement _ h₇ hd
  obtain ⟨hclosing, rfl⟩ := expect_eq_ok h₆
  obtain ⟨ts₃, k₂, rfl, hincrement⟩ := expressionUnless_reads room .rightParen _ h₅ rfl
  obtain ⟨hsemicolon, rfl⟩ := expect_eq_ok h₄
  obtain ⟨ts₂, k₁, rfl, hcondition⟩ := expressionUnless_reads room .semicolon _ h₃ rfl
  obtain ⟨ts₁, k, rfl, hfirst⟩ := forInitializer_reads room _ h₂ rfl
  obtain ⟨hopening, rfl⟩ := expect_eq_ok h₁
  exact ⟨opening :: ts₁ ++ ts₂ ++ semicolon :: ts₃ ++ closing :: us, k, dangling, by simp,
    .count hkeyword hopening hfirst hcondition hsemicolon hincrement hclosing hbody, hnext⟩

lemma statementOver_reads {statement : Parser Stmt} {item : Parser (Option Stmt)}
    (hstatement : ReadsStatement statement) (hitem : Reads item DeclarationRead) (room : Nat) :
    ReadsStatement (statementOver room statement item) := by
  intro s d s' hrun hd
  obtain ⟨r, s₁, h₁, h⟩ := EStateM.bind_eq_ok hrun
  obtain ⟨rfl, hr⟩ := peek?_eq_ok h₁
  refine (?_ : ReadsStatementFrom _ [] _) h hd
  clear h
  cases r with
  | none => exact expressionStatement_reads room s₁
  | some t =>
    dsimp only
    split
    case h_1 hk =>
      exact readsStatementFrom_advance hr
        (forStatement_reads hstatement room (isKeyword_of_kind hk))
    case h_2 hk =>
      exact readsStatementFrom_advance hr (ifStatement_reads hstatement room (isKeyword_of_kind hk))
    case h_3 hk =>
      exact readsStatementFrom_advance hr
        (whileStatement_reads hstatement room (isKeyword_of_kind hk))
    case h_4 hk =>
      exact readsStatementFrom_advance hr (returnStatement_reads room (isKeyword_of_kind hk))
    case h_5 hk =>
      exact readsStatementFrom_advance hr (printStatement_reads room (isKeyword_of_kind hk))
    case h_6 hk =>
      exact readsStatementFrom_advance hr (blockStatement_reads hitem room (isSymbol_of_kind hk))
    case h_7 => exact expressionStatement_reads room s₁

lemma recover_eq_ok {p : Parser α} {s s' : State} {r : Option α}
    (h : recover p s = .ok r s') (hd : s'.diagnostics = []) :
    ∃ a, r = some a ∧ p s = .ok a s' := by
  unfold recover at h
  cases hp : p s with
  | ok a s₁ =>
    rw [hp] at h
    cases h
    exact ⟨a, rfl, rfl⟩
  | error d s₁ =>
    rw [hp] at h
    cases h
    simp at hd

lemma itemOver_reads {statement : Parser Stmt} {item : Parser (Option Stmt)}
    (hstatement : ReadsStatement statement) (hitem : Reads item DeclarationRead) (room : Nat) :
    Reads (itemOver room statement item) DeclarationRead := by
  intro s r s' hrun hd
  obtain ⟨d, rfl, hitem'⟩ := recover_eq_ok hrun hd
  obtain ⟨r, s₁, h₁, h⟩ := EStateM.bind_eq_ok hitem'
  obtain ⟨rfl, hr⟩ := peek?_eq_ok h₁
  have fallback : ReadsFrom s₁ (statementOver room statement item) fun k ts d k' ds =>
      DeclarationRead k ts (some d) k' ds := by
    intro d s' h hd
    obtain ⟨ts, k, dangling, hs, hts, -⟩ := statementOver_reads hstatement hitem room _ h hd
    exact ⟨ts, k, hs, d, rfl, dangling, .statement hts⟩
  refine (?_ : ReadsFrom _ _ fun k ts d k' ds => DeclarationRead k ts (some d) k' ds) h hd
  clear h
  cases r with
  | none => exact fallback
  | some t =>
    dsimp only
    split
    case h_1 hk =>
      intro d s' h hd
      obtain ⟨_, s₂, h₂, h⟩ := EStateM.bind_eq_ok h
      obtain ⟨ts, k, rfl, hts⟩ := classDeclaration_reads hitem room _ h hd
      obtain rfl := advance_eq_ok hr h₂
      exact ⟨t :: ts, k, rfl, d, rfl, false, hts t (isKeyword_of_kind hk)⟩
    case h_2 hk =>
      intro d s' h hd
      obtain ⟨_, s₂, h₂, h⟩ := EStateM.bind_eq_ok h
      obtain ⟨decl, s₃, h₃, h⟩ := EStateM.bind_eq_ok h
      obtain ⟨rfl, rfl⟩ := EStateM.pure_eq_ok h
      obtain ⟨ts, k, rfl, hts⟩ := routine_reads hitem room .function _ h₃ hd
      obtain rfl := advance_eq_ok hr h₂
      exact ⟨t :: ts, k, rfl, _, rfl, false, .funDecl (isKeyword_of_kind hk) hts⟩
    case h_3 hk =>
      intro d s' h hd
      obtain ⟨_, s₂, h₂, h⟩ := EStateM.bind_eq_ok h
      obtain ⟨ts, k, rfl, hts⟩ := varDeclaration_reads room _ h hd
      obtain rfl := advance_eq_ok hr h₂
      exact ⟨t :: ts, k, rfl, d, rfl, false, .varDecl (isKeyword_of_kind hk) hts⟩
    case h_4 => exact fallback

/-- Statements and declarations together, by induction on the room. -/
lemma statement_item_reads (room : Nat) :
    ReadsStatement (statement room) ∧ Reads (item room) DeclarationRead := by
  induction room with
  | zero =>
    constructor
    · intro s d s' h hd
      cases h
    · intro s r s' h hd
      obtain ⟨d, rfl, hfail⟩ := recover_eq_ok h hd
      cases hfail
  | succ room ih =>
    exact ⟨statementOver_reads ih.1 ih.2 (room + 1), itemOver_reads ih.1 ih.2 (room + 1)⟩

lemma program_reads (room : Nat) : Reads (program room) Declarations :=
  declarations_reads _ (statement_item_reads room).2 room

end Parser
end GermanLox
