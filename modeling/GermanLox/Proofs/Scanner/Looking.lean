import GermanLox.Proofs.Scanner.Bytes
import GermanLox.Proofs.Scanner.Iterator
import GermanLox.Proofs.Sequencing
import GermanLox.Proofs.Source.Tiling

/-!
# What a scanner sees of its source

A scanner looks at the bytes that are still to come. Past some of them it has counted the line
breaks among them; most of it moves on without counting, and there it has to be shown that it passes
no line break. Where it stands between two characters it sees the bytes of the rest of its source,
and can cut there.
-/

namespace GermanLox

namespace Divides

variable {source : String} {p : source.Pos} {before rest : List Char}

/-- The byte that a place of a source stands before. -/
lemma byteIdx_eq (h : Divides p before rest) : p.offset.byteIdx = (utf8 before).length := by
  rw [h.offset_eq_rawEndPos, ← String.toList_ofList (l := before), ← utf8ByteSize_eq,
    String.ofList_toList]
  rfl

lemma get?_eq (h : Divides p before rest) : p.get? = rest.head? := by
  cases rest with
  | nil =>
    rw [h.eq_endPos]
    exact String.Pos.get?_endPos
  | cons c cs =>
    have hne : p ≠ source.endPos := by
      rintro rfl
      have hempty := congrArg String.toList (String.Pos.Splits.eq_right h source.splits_endPos)
      rw [String.toList_ofList] at hempty
      cases hempty
    obtain ⟨after, hafter⟩ := String.Pos.Splits.exists_eq_singleton_append hne h
    have hhead := congrArg String.toList hafter
    rw [String.toList_ofList, String.toList_append, String.toList_singleton] at hhead
    rw [String.Pos.get?_eq_some_get hne, List.head?_cons, (List.cons.inj hhead).1]

end Divides

namespace Scanner

variable {s : Scanner} {b : UInt8} {bs bs' : List UInt8}

/-- The bytes to come. -/
def ahead (s : Scanner) : List UInt8 :=
  s.bytes.toList.drop s.curr

/-- The scanner past some bytes, with the line breaks among them counted. -/
def past (s : Scanner) (bs : List UInt8) : Scanner :=
  { s with curr := s.curr + bs.length, line := s.line + bs.count '\n'.toUInt8 }

lemma past_append (s : Scanner) (bs bs' : List UInt8) :
    s.past (bs ++ bs') = (s.past bs).past bs' := by
  simp only [past, List.length_append, List.count_append, Nat.add_assoc]

lemma past_of_not_mem (h : '\n'.toUInt8 ∉ bs) :
    s.past bs = { s with curr := s.curr + bs.length } := by
  rw [past, List.count_eq_zero.mpr h, Nat.add_zero]

lemma past_utf8 (s : Scanner) (cs ds : List Char) :
    (s.past (utf8 cs)).past (utf8 ds) = s.past (utf8 (cs ++ ds)) := by
  rw [utf8_append, past_append]

lemma past_singleton {c : Char} (h : c ≠ '\n') :
    s.past (utf8 [c]) = { s with curr := s.curr + c.utf8Size } := by
  have hnewline : '\n'.toUInt8 ∉ utf8 [c] := by
    rw [utf8_singleton, mem_utf8EncodeChar_iff (by decide)]
    exact h
  rw [past_of_not_mem hnewline, utf8_singleton, String.length_utf8EncodeChar]

lemma ahead_past (h : s.ahead = bs ++ bs') : (s.past bs).ahead = bs' := by
  have hdrop : (s.past bs).ahead = s.ahead.drop bs.length := (List.drop_drop ..).symm
  rw [hdrop, h, List.drop_left]

section Looking

lemma length_le_iff : s.length ≤ s.curr ↔ s.ahead = [] := by
  rw [ahead, List.drop_eq_nil_iff, Array.length_toList]
  rfl

lemma getElem?_bytes (s : Scanner) (i : Nat) : s.bytes[s.curr + i]? = s.ahead[i]? := by
  rw [ahead, List.getElem?_drop, Array.getElem?_toList]

lemma isAtEnd_eq (s : Scanner) : isAtEnd s = some (.ok s.ahead.isEmpty, s) := by
  have hempty : decide (s.length ≤ s.curr) = s.ahead.isEmpty := by
    rw [Bool.eq_iff_iff, decide_eq_true_eq, List.isEmpty_iff, length_le_iff]
  rw [← hempty]
  rfl

lemma isAtEnd_of_nil (h : s.ahead = []) : isAtEnd s = some (.ok true, s) := by
  rw [isAtEnd_eq, h]
  rfl

lemma isAtEnd_of_cons (h : s.ahead = b :: bs) : isAtEnd s = some (.ok false, s) := by
  rw [isAtEnd_eq, h]
  rfl

lemma peek_eq (s : Scanner) : peek s = some (.ok (s.ahead.headD 0), s) := by
  have hbyte := getElem?_bytes s 0
  rw [peek, ExceptT.bind_of_ok (isAtEnd_eq s)]
  cases hahead : s.ahead with
  | nil => rfl
  | cons b bs =>
    rw [hahead] at hbyte
    exact congrArg (Option.map _) hbyte

lemma peek_of_cons (h : s.ahead = b :: bs) : peek s = some (.ok b, s) := by
  rw [peek_eq, h]
  rfl

lemma peekNext_eq (s : Scanner) : peekNext s = some (.ok (s.ahead.tail.headD 0), s) := by
  have hbyte := getElem?_bytes s 1
  have htail : s.ahead.tail = [] ↔ s.length ≤ s.curr + 1 := by
    rw [ahead, List.tail_drop, List.drop_eq_nil_iff, Array.length_toList]
    rfl
  have hread : read (fun s => decide (s.length ≤ s.curr + 1)) s =
      some (.ok s.ahead.tail.isEmpty, s) := by
    have hempty : decide (s.length ≤ s.curr + 1) = s.ahead.tail.isEmpty := by
      rw [Bool.eq_iff_iff, decide_eq_true_eq, List.isEmpty_iff, htail]
    rw [← hempty]
    rfl
  rw [peekNext, ExceptT.bind_of_ok hread]
  rw [← List.head?_tail] at hbyte
  cases hahead : s.ahead.tail with
  | nil => rfl
  | cons b bs =>
    rw [hahead] at hbyte
    exact congrArg (Option.map _) hbyte

lemma advance_of_ahead (h : s.ahead = b :: bs) :
    advance s = some (.ok b, { s with curr := s.curr + 1 }) := by
  have hbyte : s.bytes[s.curr]? = some b := (getElem?_bytes s 0).trans (by rw [h]; rfl)
  have hdemand : demand (fun s => s.bytes[s.curr]?) s = some (.ok b, s) := by
    rw [demand, hbyte]
    rfl
  rw [advance, ExceptT.bind_of_ok hdemand]
  rfl

/-- What is no line break need not be counted. -/
lemma advance_of_ne (h : s.ahead = b :: bs) (hb : b ≠ '\n'.toUInt8) :
    advance s = some (.ok b, s.past [b]) := by
  rw [past_of_not_mem (by simpa using hb.symm)]
  exact advance_of_ahead h

lemma matchByte_of_head {expected : UInt8} (h : s.ahead = expected :: bs)
    (hne : expected ≠ '\n'.toUInt8) :
    matchByte expected s = some (.ok true, s.past [expected]) := by
  rw [matchByte, ExceptT.bind_of_ok (isAtEnd_of_cons h)]
  refine (ExceptT.bind_of_ok (peek_of_cons h) _).trans ?_
  rw [if_pos rfl, ExceptT.bind_of_ok (advance_of_ne h hne)]
  rfl

lemma matchByte_of_not {expected : UInt8} (h : s.ahead.head? ≠ some expected) :
    matchByte expected s = some (.ok false, s) := by
  rw [matchByte]
  cases hahead : s.ahead with
  | nil =>
    rw [ExceptT.bind_of_ok (isAtEnd_of_nil hahead)]
    rfl
  | cons b bs =>
    have hne : b ≠ expected := by
      rintro rfl
      exact h (by rw [hahead]; rfl)
    rw [ExceptT.bind_of_ok (isAtEnd_of_cons hahead)]
    refine (ExceptT.bind_of_ok (peek_of_cons hahead) _).trans ?_
    rw [if_neg hne]
    rfl

end Looking

section Loops

variable {round : Action Bool} {s' : Scanner} {room : Nat}

lemma repeatWhile_of_true (h : round s = some (.ok true, s')) (room : Nat) :
    repeatWhile round (room + 1) s = repeatWhile round room s' := by
  rw [repeatWhile, ExceptT.bind_of_ok h]
  rfl

lemma repeatWhile_of_false (h : round s = some (.ok false, s')) (room : Nat) :
    repeatWhile round (room + 1) s = some (.ok (), s') := by
  rw [repeatWhile, ExceptT.bind_of_ok h]
  rfl

/-- A loop that takes bytes of a given form, one in a round. -/
lemma repeatWhile_bytes {p : UInt8 → Bool}
    (htake : ∀ s b bs, s.ahead = b :: bs → p b = true → round s = some (.ok true, s.past [b]))
    (hstop : ∀ s, (∀ b ∈ s.ahead.head?, p b = false) → round s = some (.ok false, s))
    (hroom : s.ahead.length < room) :
    repeatWhile round room s = some (.ok (), s.past (s.ahead.takeWhile p)) := by
  induction room generalizing s with
  | zero => omega
  | succ room ih =>
    cases hahead : s.ahead with
    | nil => exact repeatWhile_of_false (hstop s (by simp [hahead])) room
    | cons b bs =>
      rw [List.takeWhile_cons]
      cases hb : p b with
      | false => exact repeatWhile_of_false (hstop s (by simpa [hahead] using hb)) room
      | true =>
        have hnext : (s.past [b]).ahead = bs := ahead_past hahead
        have hlength : bs.length < room := by
          rw [hahead, List.length_cons] at hroom
          omega
        rw [repeatWhile_of_true (htake s b bs hahead hb), ih (by rwa [hnext]), hnext,
          ← past_append]
        rfl

lemma repeatWhile_stringRound (hroom : s.ahead.length < room) :
    repeatWhile stringRound room s =
      some (.ok (), s.past (s.ahead.takeWhile (· ≠ '"'.toUInt8))) := by
  refine repeatWhile_bytes (fun s b bs hahead hb => ?_) (fun s hb => ?_) hroom
  · rw [stringRound, ExceptT.bind_of_ok (isAtEnd_of_cons hahead)]
    refine (ExceptT.bind_of_ok (peek_of_cons hahead) _).trans ?_
    rw [if_neg (of_decide_eq_true hb), ExceptT.bind_of_ok (advance_of_ahead hahead)]
    by_cases hline : b = '\n'.toUInt8
    · subst hline
      rfl
    · rw [if_neg hline, past_of_not_mem (by simpa using Ne.symm hline)]
      rfl
  · rw [stringRound]
    cases hahead : s.ahead with
    | nil =>
      rw [ExceptT.bind_of_ok (isAtEnd_of_nil hahead)]
      rfl
    | cons b bs =>
      have hquote : b = '"'.toUInt8 := by simpa [hahead] using hb
      rw [ExceptT.bind_of_ok (isAtEnd_of_cons hahead)]
      refine (ExceptT.bind_of_ok (peek_of_cons hahead) _).trans ?_
      rw [if_pos hquote]
      rfl

lemma repeatWhile_digitRound (hroom : s.ahead.length < room) :
    repeatWhile digitRound room s =
      some (.ok (), s.past (s.ahead.takeWhile (asciiIs Char.isDigit))) := by
  refine repeatWhile_bytes (fun s b bs hahead hb => ?_) (fun s hb => ?_) hroom
  · have hne : b ≠ '\n'.toUInt8 := by
      rintro rfl
      revert hb
      decide
    rw [digitRound, ExceptT.bind_of_ok (peek_of_cons hahead), if_pos hb,
      ExceptT.bind_of_ok (advance_of_ne hahead hne)]
    rfl
  · have hhead : asciiIs Char.isDigit (s.ahead.headD 0) = false := by
      cases hahead : s.ahead with
      | nil => decide
      | cons b bs => exact hb b (by rw [hahead]; rfl)
    rw [digitRound, ExceptT.bind_of_ok (peek_eq s), hhead]
    rfl

end Loops

section Places

/-- The scanner stands between two characters of its source. -/
structure At (s : Scanner) (before rest : List Char) : Prop where
  source : s.source.toList = before ++ rest
  curr : s.curr = (utf8 before).length

variable {before text rest : List Char}

namespace At

lemma ahead_eq (h : s.At before rest) : s.ahead = utf8 rest := by
  rw [ahead, bytes, toList_toByteArray, h.source, h.curr, utf8_append, List.drop_left]

lemma length_eq (h : s.At before rest) : s.length = s.curr + (utf8 rest).length := by
  rw [h.curr, ← List.length_append, ← utf8_append, ← h.source, ← toList_toByteArray,
    Array.length_toList]
  rfl

lemma past (h : s.At before (text ++ rest)) : (s.past (utf8 text)).At (before ++ text) rest where
  source := by
    rw [List.append_assoc]
    exact h.source
  curr := by
    rw [utf8_append, List.length_append, ← h.curr]
    rfl

/-- A scanner between two characters is at a place. -/
lemma exists_place (h : s.At before rest) :
    ∃ p : s.source.Pos, place? s.source s.curr = some p ∧ Divides p before rest := by
  obtain ⟨p, hp⟩ := exists_divides h.source
  have hidx : p.offset = ⟨s.curr⟩ := by
    rw [h.curr, ← hp.byteIdx_eq]
  refine ⟨p, ?_, hp⟩
  have hvalid : String.Pos.Raw.IsValid s.source ⟨s.curr⟩ := hidx ▸ p.isValid
  rw [place?, dif_pos hvalid]
  exact congrArg some (String.Pos.ext hidx.symm)

end At

/-- The character at a place of the source. -/
lemma charAt_eq {i : Nat} (hsource : s.source.toList = before ++ rest)
    (hi : i = (utf8 before).length) : charAt i s = some (.ok rest.head?, s) := by
  have hat : ({ s with curr := i } : Scanner).At before rest := ⟨hsource, hi⟩
  obtain ⟨p, hplace, hp⟩ := hat.exists_place
  rw [charAt, read, hplace, Option.bind_some, hp.get?_eq]

/-- A cut between two places of the source. -/
lemma slice_eq {start stop : Scanner → Nat} (hsource : s.source.toList = before ++ text ++ rest)
    (hstart : start s = (utf8 before).length) (hstop : stop s = (utf8 (before ++ text)).length) :
    slice start stop s = some (.ok (String.ofList text), s) := by
  have hp : ({ s with curr := start s } : Scanner).At before (text ++ rest) :=
    ⟨hsource.trans (List.append_assoc ..), hstart⟩
  have hq : ({ s with curr := stop s } : Scanner).At (before ++ text) rest := ⟨hsource, hstop⟩
  obtain ⟨p, hplace, hp⟩ := hp.exists_place
  obtain ⟨q, hplace', hq⟩ := hq.exists_place
  obtain ⟨hle, htext⟩ := hp.extract_eq hq
  rw [slice, demand, hplace, hplace']
  simp only [Option.bind_eq_bind, Option.bind_some, if_pos hle, htext, Option.map_some]

end Places

end Scanner
end GermanLox
