import GermanLox.Proofs.Scanner.Lexemes

/-!
# The items that a scanner gives

Called again and again, a scanner gives the items of its source one by one, then nothing any more.
After each item it stands where the item ends, on the line of that place.
-/

namespace GermanLox
namespace Scanner

variable {s s' : Scanner} {room : Nat}

section Rounds

lemma nextItem_of_lt (h : s.length < s.curr) (room : Nat) :
    nextItem (room + 1) s = some (.ok none, s) := by
  have hread : read id s = some (.ok s, s) := rfl
  rw [nextItem, ExceptT.bind_of_ok hread, if_pos h]
  rfl

lemma nextItem_of_eq (h : s.curr = s.length) (room : Nat) : nextItem (room + 1) s =
    some (.ok (some (.token ⟨.eof, "", s.line⟩)), { s with curr := s.curr + 1 }) := by
  have hread : read id s = some (.ok s, s) := rfl
  rw [nextItem, ExceptT.bind_of_ok hread, if_neg (by omega), if_pos h]
  rfl

lemma nextItem_of_gt (h : s.curr < s.length) (room : Nat) : nextItem (room + 1) s =
    (scanToken room >>= fun _ => pendingOr (nextItem room)) s.begun := by
  have hread : read id s = some (.ok s, s) := rfl
  have hbegin : change begun s = some (.ok (), s.begun) := rfl
  rw [nextItem, ExceptT.bind_of_ok hread, if_neg (by omega), if_neg (by omega),
    ExceptT.bind_of_ok hbegin]

variable {more : Action (Option Item)}

lemma pendingOr_of_none (h : s.pending = none) : pendingOr more s = more s := by
  have hread : read pending s = some (.ok none, s) := by rw [← h]; rfl
  rw [pendingOr, ExceptT.bind_of_ok hread]

lemma pendingOr_of_some {kind : TokenKind} {text : String} (h : s.pending = none)
    (hslice : slice start curr s = some (.ok text, s)) :
    pendingOr more { s with pending := some kind } =
      some (.ok (some (.token ⟨kind, text, s.line⟩)), s) := by
  have hread : read pending { s with pending := some kind } =
      some (.ok (some kind), { s with pending := some kind }) := rfl
  have htake : change (fun s => { s with pending := none }) { s with pending := some kind } =
      some (.ok (), s) := by
    rw [change, ← h]
  rw [pendingOr, ExceptT.bind_of_ok hread]
  refine (ExceptT.bind_of_ok htake _).trans ((ExceptT.bind_of_ok hslice _).trans ?_)
  rfl

end Rounds

/-- What a call comes to, for any room that the bytes to come fit in. -/
def Gives (s : Scanner) (item : Option Item) (s' : Scanner) : Prop :=
  ∀ room, s.ahead.length < room → s.next room = some (item, s')

section Steps

variable {before cs rest : List Char} {c : Char}

/-- Nothing is given behind the end. -/
lemma gives_none (h : s.length < s.curr) : s.Gives none s := by
  intro room hroom
  obtain ⟨room, rfl⟩ := Nat.exists_eq_add_one.mpr (Nat.zero_lt_of_lt hroom)
  rw [next, nextItem_of_lt h]
  rfl

lemma gives_end (h : s.At before []) :
    s.Gives (some (.token ⟨.eof, "", s.line⟩)) { s with curr := s.curr + 1 } := by
  intro room hroom
  obtain ⟨room, rfl⟩ := Nat.exists_eq_add_one.mpr (Nat.zero_lt_of_lt hroom)
  rw [next, nextItem_of_eq h.length_eq.symm]
  rfl

/-- The scanner behind the fragment that it has before it. -/
def behind (s : Scanner) (c : Char) (cs : List Char) : Scanner :=
  s.begun.past (utf8 (Fragment.starting c cs).text)

lemma At.behind (h : s.At before (c :: cs))
    (htext : (Fragment.starting c cs).text ++ rest = c :: cs) :
    (s.behind c cs).At (before ++ (Fragment.starting c cs).text) rest := by
  have hbegun : s.begun.At before (c :: cs) := ⟨h.source, h.curr⟩
  rw [← htext] at hbegun
  exact hbegun.past

/-- A round of a call takes a fragment: it gives its item, or goes on behind it. -/
lemma nextItem_of_at (h : s.At before (c :: cs)) (hroom : s.ahead.length ≤ room) :
    (∀ item, Item.ofFragment? (s.behind c cs).line (Fragment.starting c cs) = some item →
      (nextItem (room + 1) s).map (Prod.map answer id) = some (some item, s.behind c cs)) ∧
    (Item.ofFragment? (s.behind c cs).line (Fragment.starting c cs) = none →
      nextItem (room + 1) s = nextItem room (s.behind c cs)) := by
  have hbegins : s.begun.Begins before (c :: cs) := ⟨⟨h.source, h.curr⟩, rfl⟩
  have hsize := List.length_pos_iff.mpr (String.utf8EncodeChar_ne_nil (c := c))
  have hlt : s.curr < s.length := by
    rw [h.length_eq, utf8_cons, List.length_append]
    omega
  have hscan : scanToken room s.begun = some (s.begun.leave (Fragment.starting c cs)) := by
    refine scanToken_eq hbegins ?_
    rw [h.ahead_eq, utf8_cons, List.length_append] at hroom
    omega
  obtain ⟨rest, htext⟩ := Fragment.starting_isPrefix c cs
  rw [← htext] at hbegins
  have hslice := slice_past hbegins
  rw [nextItem_of_gt hlt, behind]
  generalize Fragment.starting c cs = fragment at *
  obtain ⟨kind, text⟩ := fragment
  cases kind with
  | blank =>
    refine ⟨fun item hitem => (by cases hitem), fun _ => ?_⟩
    rw [ExceptT.bind_of_ok hscan, pendingOr_of_none rfl]
  | comment =>
    refine ⟨fun item hitem => (by cases hitem), fun _ => ?_⟩
    rw [ExceptT.bind_of_ok hscan, pendingOr_of_none rfl]
  | token kind =>
    refine ⟨fun item hitem => ?_, fun hnone => (by cases hnone)⟩
    rw [ExceptT.bind_of_ok hscan, pendingOr_of_some rfl hslice, ← hitem]
    rfl
  | fault cause =>
    refine ⟨fun item hitem => ?_, fun hnone => (by cases hnone)⟩
    rw [ExceptT.bind_of_error hscan, ← hitem]
    rfl

lemma gives_of_some {item : Item} (h : s.At before (c :: cs))
    (hitem : Item.ofFragment? (s.behind c cs).line (Fragment.starting c cs) = some item) :
    s.Gives (some item) (s.behind c cs) := by
  intro room hroom
  obtain ⟨room, rfl⟩ := Nat.exists_eq_add_one.mpr (Nat.zero_lt_of_lt hroom)
  exact (nextItem_of_at h (Nat.le_of_lt_succ hroom)).1 item hitem

/-- What is no item makes no difference to a call. -/
lemma Gives.of_none {item : Option Item} (h : s.At before (c :: cs))
    (hnone : Item.ofFragment? (s.behind c cs).line (Fragment.starting c cs) = none)
    (hgives : (s.behind c cs).Gives item s') : s.Gives item s' := by
  intro room hroom
  obtain ⟨room, rfl⟩ := Nat.exists_eq_add_one.mpr (Nat.zero_lt_of_lt hroom)
  obtain ⟨rest, htext⟩ := Fragment.starting_isPrefix c cs
  have hlength : (s.behind c cs).ahead.length < room := by
    have hpos := utf8_length_pos (Fragment.starting_ne_nil c cs)
    rw [h.ahead_eq, ← htext, utf8_append, List.length_append] at hroom
    rw [(h.behind htext).ahead_eq]
    omega
  rw [next, (nextItem_of_at h (Nat.le_of_lt_succ hroom)).2 hnone]
  exact hgives room hlength

end Steps

section Runs

variable {source : String} {placed : List (Item × Stretch source)}

/-- The scanner stands at the end of a stretch, and on the line there. For an empty stretch, only
the line is meant. -/
structure StandsAfter (s : Scanner) (stretch : Stretch source) : Prop where
  start : stretch.start < stretch.stop → s.start = stretch.start.offset.byteIdx
  curr : stretch.start < stretch.stop → s.curr = stretch.stop.offset.byteIdx
  line : s.line = lineAt stretch.stop

/-- Items that are given one after the other, and nothing behind them. -/
inductive Runs : Scanner → List (Item × Stretch source) → Prop
  | done {s : Scanner} (h : s.length < s.curr) : Runs s []
  | item {s s' : Scanner} {item : Item} {stretch : Stretch source}
    {placed : List (Item × Stretch source)} (h : s.Gives (some item) s')
    (hstands : s'.StandsAfter stretch) (hle : s'.ahead.length ≤ s.ahead.length)
    (hrest : Runs s' placed) : Runs s ((item, stretch) :: placed)

/-- The calls of a run. -/
lemma Runs.call (h : Runs s placed) (hroom : s.ahead.length < room) (n : Nat) :
    ∃ s', s.call room n = some ((placed.map Prod.fst)[n]?, s') ∧
      ∀ a, placed[n]? = some a → s'.StandsAfter a.2 := by
  induction h generalizing n with
  | @done s h =>
    have hnone : s.call room n = some (none, s) := by
      induction n with
      | zero => exact gives_none h room hroom
      | succ n ih => rw [Scanner.call, gives_none h room hroom, Option.bind_some, ih]
    exact ⟨s, hnone, fun _ h => by cases h⟩
  | @item s s' item stretch placed hgives hstands hle _ ih =>
    cases n with
    | zero =>
      refine ⟨s', hgives room hroom, fun a ha => ?_⟩
      obtain rfl := Option.some.inj ha
      exact hstands
    | succ n =>
      obtain ⟨t, hcall, ht⟩ := ih (Nat.lt_of_le_of_lt hle hroom) n
      refine ⟨t, ?_, ht⟩
      rw [Scanner.call, hgives room hroom, Option.bind_some, hcall]
      rfl

variable {before cs rest : List Char} {c : Char} {p : source.Pos}

lemma Runs.of_none (h : s.At before (c :: cs))
    (hnone : Item.ofFragment? (s.behind c cs).line (Fragment.starting c cs) = none)
    (hruns : Runs (s.behind c cs) placed) : Runs s placed := by
  obtain ⟨rest, htext⟩ := Fragment.starting_isPrefix c cs
  have hbehind := h.behind htext
  cases hruns with
  | done hlt =>
    rw [hbehind.length_eq] at hlt
    omega
  | item hgives hstands hle hrest =>
    refine .item (hgives.of_none h hnone) hstands (Nat.le_trans hle ?_) hrest
    rw [hbehind.ahead_eq, h.ahead_eq, ← htext, utf8_append, List.length_append]
    omega

/-- From a place on, the calls give items that cover the rest of the source. -/
lemma exists_run (hp : Divides p before rest) :
    ∃ placed : List (Item × Stretch source),
      placed.map Prod.fst = Item.place (lineAt p) (Fragment.split rest) ∧ Tiles p placed ∧
      ∀ s : Scanner, s.At before rest → s.line = lineAt p → Runs s placed := by
  generalize hn : rest.length = n
  induction n using Nat.strongRecOn generalizing p before rest with
  | ind n ih =>
    cases rest with
    | nil =>
      obtain rfl := hp.eq_endPos
      refine ⟨_, rfl, .done (.nothing _), fun s hs hline => ?_⟩
      have hend : s.length < s.curr + 1 := by
        rw [hs.length_eq]
        exact Nat.lt_succ_self _
      have hstands : ({ s with curr := s.curr + 1 } : Scanner).StandsAfter (.atEnd source) :=
        ⟨fun h => absurd h (Std.lt_irrefl), fun h => absurd h (Std.lt_irrefl), hline⟩
      rw [← hline]
      refine .item (gives_end hs) hstands ?_ (.done hend)
      rw [length_le_iff.mp (Nat.le_of_lt hend)]
      exact Nat.zero_le _
    | cons c cs =>
      obtain ⟨rest, htext⟩ := Fragment.starting_isPrefix c cs
      have hsplit : Fragment.split (c :: cs) = Fragment.starting c cs :: Fragment.split rest :=
        Fragment.split_of_starting rfl htext
      have hp' := hp
      rw [← htext] at hp'
      obtain ⟨q, hq, hle, -, hline⟩ := hp'.exists_next
      have hlength := congrArg List.length htext
      have hpos := List.length_pos_iff.mpr (Fragment.starting_ne_nil c cs)
      rw [List.length_append, hn] at hlength
      obtain ⟨placed, hplaced, htiles, hruns⟩ := ih rest.length (by omega) hq rfl
      have hbehind : ∀ s : Scanner, s.At before (c :: cs) → s.line = lineAt p →
          (s.behind c cs).line = lineAt q ∧ Runs (s.behind c cs) placed := by
        intro s hs hs'
        have hsline : (s.behind c cs).line = lineAt q := by
          rw [hline, ← hs', ← count_utf8 (by decide)]
          rfl
        exact ⟨hsline, hruns _ (hs.behind htext) hsline⟩
      rw [hsplit, Item.place, ← hline, ← hplaced]
      cases hitem : Item.ofFragment? (lineAt q) (Fragment.starting c cs) with
      | none =>
        refine ⟨placed, rfl, htiles.of_none hp htext hq hitem, fun s hs hs' => ?_⟩
        obtain ⟨hsline, hrest⟩ := hbehind s hs hs'
        exact hrest.of_none hs (by rwa [hsline])
      | some item =>
        refine ⟨(item, ⟨p, q, hle⟩) :: placed, rfl,
          .item (.nothing p) (Item.standsOn_starting hp htext hq hitem hle) htiles,
          fun s hs hs' => ?_⟩
        obtain ⟨hsline, hrest⟩ := hbehind s hs hs'
        have hat := hs.behind htext
        have hstands : (s.behind c cs).StandsAfter ⟨p, q, hle⟩ :=
          ⟨fun _ => hs.curr.trans hp.byteIdx_eq.symm, fun _ => hat.curr.trans hq.byteIdx_eq.symm,
            hsline⟩
        refine .item (gives_of_some hs (by rwa [hsline])) hstands ?_ hrest
        rw [hat.ahead_eq, hs.ahead_eq, ← htext, utf8_append, List.length_append]
        omega

/-- Scanning loses nothing and counts lines. The items stand on stretches one after the other, with
blanks and comments between them, up to the end, which is the last item and the only one of its
kind. The calls of a scanner give these items in order, and nothing ever after. Whenever it has
given one, the scanner stands behind its stretch, on the line where that ends. -/
theorem calls_tile_source (source : String) : ∃ placed : List (Item × Stretch source),
    placed.map Prod.fst = scan source ∧ Tiles source.startPos placed ∧
    placed.Pairwise (fun a b => a.2.start < a.2.stop ∧ a.2.stop ≤ b.2.start) ∧
    (∃ items, placed.map Prod.fst = items ++ [.token ⟨.eof, "", lineAt source.endPos⟩] ∧
      ∀ t, Item.token t ∈ items → t.kind ≠ .eof) ∧
    ∀ room, source.utf8ByteSize < room →
      (∀ n a, placed[n]? = some a →
        ∃ s, (new source).call room n = some (some a.1, s) ∧ s.StandsAfter a.2) ∧
      ∀ n, placed.length ≤ n → ∃ s, (new source).call room n = some (none, s) := by
  have hstart := divides_startPos source
  obtain ⟨placed, hplaced, htiles, hruns⟩ := exists_run hstart
  have hline : lineAt source.startPos = 1 := hstart.lineAt_eq
  have hnew : (new source).At [] source.toList := ⟨rfl, rfl⟩
  rw [hline] at hplaced
  refine ⟨placed, hplaced, htiles, htiles.pairwise, htiles.ends, fun room hroom => ?_⟩
  rw [utf8ByteSize_eq, ← hnew.ahead_eq] at hroom
  have hcalls := (hruns _ hnew hline.symm).call hroom
  refine ⟨fun n a ha => ?_, fun n hn => ?_⟩
  · obtain ⟨s, hcall, hs⟩ := hcalls n
    rw [List.getElem?_map, ha] at hcall
    exact ⟨s, hcall, hs a ha⟩
  · obtain ⟨s, hcall, -⟩ := hcalls n
    rw [List.getElem?_eq_none (by rwa [List.length_map])] at hcall
    exact ⟨s, hcall⟩

theorem calls_tile_two_lines : "für\n€".utf8ByteSize < 9 ∧
    (∃ s, (new "für\n€").call 9 1 = some (some (.fault 2 .unexpectedCharacter), s)) ∧
    ∃ s, (new "für\n€").call 9 3 = some (none, s) := by
  obtain ⟨placed, hscan, -, -, -, hcalls⟩ := calls_tile_source "für\n€"
  obtain ⟨hgiven, hnone⟩ := hcalls 9 (by decide)
  have hitems : scan "für\n€" = [.token ⟨.keyword .fuer, "für", 1⟩, .fault 2 .unexpectedCharacter,
      .token ⟨.eof, "", 2⟩] := by decide
  rw [hitems] at hscan
  have hsecond : (placed[1]?).map Prod.fst = some (.fault 2 .unexpectedCharacter) := by
    rw [← List.getElem?_map, hscan]
    rfl
  have hlength : placed.length = 3 := by
    rw [← List.length_map Prod.fst, hscan]
    rfl
  obtain ⟨a, ha, hfault⟩ := Option.map_eq_some_iff.mp hsecond
  obtain ⟨s, hcall, -⟩ := hgiven 1 a ha
  rw [hfault] at hcall
  exact ⟨by decide, ⟨s, hcall⟩, hnone 3 (by omega)⟩

end Runs

end Scanner
end GermanLox
