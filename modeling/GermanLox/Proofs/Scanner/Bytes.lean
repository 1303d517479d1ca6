import GermanLox.Proofs.Source.Lexemes

/-!
# The bytes of a text

A text is kept as its bytes. A character of the first 128 is one byte, and this byte is part of no
other character. So a byte of these shows where its character is, and a text can be searched for
such characters byte by byte.
-/

namespace GermanLox

/-- The bytes of a text. -/
def utf8 (cs : List Char) : List UInt8 :=
  cs.flatMap String.utf8EncodeChar

/-- A character that is one byte. -/
def IsAscii (c : Char) : Prop :=
  c.toNat < 128

instance (c : Char) : Decidable (IsAscii c) :=
  inferInstanceAs (Decidable (c.toNat < 128))

@[simp] lemma utf8_nil : utf8 [] = [] :=
  rfl

@[simp] lemma utf8_cons (c : Char) (cs : List Char) :
    utf8 (c :: cs) = String.utf8EncodeChar c ++ utf8 cs :=
  List.flatMap_cons

lemma utf8_singleton (c : Char) : utf8 [c] = String.utf8EncodeChar c :=
  List.flatMap_singleton ..

@[simp] lemma utf8_append (cs ds : List Char) : utf8 (cs ++ ds) = utf8 cs ++ utf8 ds :=
  List.flatMap_append

lemma toList_toByteArray (source : String) :
    source.toByteArray.data.toList = utf8 source.toList := by
  rw [← String.ofList_toList (s := source), String.toByteArray_ofList, String.ofList_toList]
  exact List.toList_data_toByteArray

lemma utf8ByteSize_eq (source : String) : source.utf8ByteSize = (utf8 source.toList).length := by
  rw [← toList_toByteArray, Array.length_toList, ← String.size_toByteArray]
  rfl

lemma utf8_length_pos {cs : List Char} (h : cs ≠ []) : 0 < (utf8 cs).length := by
  obtain ⟨c, cs, rfl⟩ := List.exists_cons_of_ne_nil h
  have hsize := List.length_pos_iff.mpr (String.utf8EncodeChar_ne_nil (c := c))
  rw [utf8_cons, List.length_append]
  omega

section Characters

variable {c : Char}

lemma utf8EncodeChar_of_isAscii (h : IsAscii c) : String.utf8EncodeChar c = [c.toUInt8] := by
  refine String.utf8EncodeChar_eq_singleton (Char.utf8Size_eq_one_iff.mpr ?_)
  exact UInt32.le_iff_toNat_le.mpr (Nat.le_of_lt_succ h)

/-- The bytes of other characters are none of those. -/
lemma le_of_mem_utf8EncodeChar (h : ¬ IsAscii c) {b : UInt8} (hb : b ∈ String.utf8EncodeChar c) :
    0x80 ≤ b := by
  have hhigh : ∀ n k, 128 ≤ k → n + k < 256 → 0x80 ≤ UInt8.ofNat (n + k) := by
    intro n k hk hlt
    rw [UInt8.le_iff_toNat_le, UInt8.toNat_ofNat_of_lt' hlt]
    exact Nat.le_trans hk (Nat.le_add_left k n)
  have hge : 128 ≤ c.val.toNat := Nat.le_of_not_lt h
  simp only [String.utf8EncodeChar] at hb
  split at hb
  · omega
  · split at hb
    · simp only [List.mem_cons, List.not_mem_nil, or_false] at hb
      rcases hb with rfl | rfl <;> exact hhigh _ _ (by decide) (by omega)
    · split at hb
      · simp only [List.mem_cons, List.not_mem_nil, or_false] at hb
        rcases hb with rfl | rfl | rfl <;> exact hhigh _ _ (by decide) (by omega)
      · simp only [List.mem_cons, List.not_mem_nil, or_false] at hb
        rcases hb with rfl | rfl | rfl | rfl <;> exact hhigh _ _ (by decide) (by omega)

lemma utf8_cons_of_isAscii (h : IsAscii c) (cs : List Char) :
    utf8 (c :: cs) = c.toUInt8 :: utf8 cs := by
  rw [utf8_cons, utf8EncodeChar_of_isAscii h, List.singleton_append]

lemma exists_utf8_cons (h : ¬ IsAscii c) (cs : List Char) :
    ∃ b bs, utf8 (c :: cs) = b :: bs ∧ 0x80 ≤ b := by
  obtain ⟨b, bs, hbytes⟩ := List.exists_cons_of_ne_nil (String.utf8EncodeChar_ne_nil (c := c))
  refine ⟨b, bs ++ utf8 cs, by rw [utf8_cons, hbytes, List.cons_append], ?_⟩
  exact le_of_mem_utf8EncodeChar h (by rw [hbytes]; exact List.mem_cons_self)

lemma utf8Size_of_isAscii (h : IsAscii c) : c.utf8Size = 1 := by
  rw [← String.length_utf8EncodeChar, utf8EncodeChar_of_isAscii h, List.length_singleton]

lemma toNat_toUInt8 (h : IsAscii c) : c.toUInt8.toNat = c.toNat := by
  rw [Char.toUInt8, UInt32.toNat_toUInt8]
  exact Nat.mod_eq_of_lt (Nat.lt_trans h (by decide))

lemma toUInt8_lt (h : IsAscii c) : c.toUInt8 < 0x80 := by
  rw [UInt8.lt_iff_toNat_lt, toNat_toUInt8 h]
  exact h

lemma ofUInt8_toUInt8 (h : IsAscii c) : Char.ofUInt8 c.toUInt8 = c := by
  refine Char.ext (UInt32.toNat_inj.mp ?_)
  exact (UInt8.toNat_toUInt32 _).trans (toNat_toUInt8 h)

/-- A byte of the first 128 belongs to its own character only. -/
lemma mem_utf8EncodeChar_iff {d : Char} (hd : IsAscii d) :
    d.toUInt8 ∈ String.utf8EncodeChar c ↔ c = d := by
  by_cases hc : IsAscii c
  · rw [utf8EncodeChar_of_isAscii hc, List.mem_singleton]
    constructor
    · intro h
      rw [← ofUInt8_toUInt8 hc, ← h, ofUInt8_toUInt8 hd]
    · rintro rfl
      rfl
  · constructor
    · intro h
      exact absurd (toUInt8_lt hd) (UInt8.not_lt.mpr (le_of_mem_utf8EncodeChar hc h))
    · rintro rfl
      exact absurd hd hc

end Characters

section Search

/-- A search that stops at characters and not inside of them. -/
lemma takeWhile_utf8 {p : UInt8 → Bool} {q : Char → Bool}
    (hall : ∀ c, q c = true → ∀ b ∈ String.utf8EncodeChar c, p b = true)
    (hhead : ∀ c, q c = false → ∀ b ∈ (String.utf8EncodeChar c).head?, p b = false)
    (cs : List Char) : (utf8 cs).takeWhile p = utf8 (cs.takeWhile q) := by
  induction cs with
  | nil => rfl
  | cons c cs ih =>
    rw [utf8_cons, List.takeWhile_cons]
    cases hc : q c with
    | true => rw [List.takeWhile_append_of_pos (hall c hc), ih, if_pos rfl, utf8_cons]
    | false =>
      obtain ⟨b, bs, hbytes⟩ := List.exists_cons_of_ne_nil (String.utf8EncodeChar_ne_nil (c := c))
      have hb : p b = false := hhead c hc b (by rw [hbytes]; rfl)
      rw [hbytes, List.cons_append, List.takeWhile_cons, hb]
      rfl

lemma takeWhile_ne_utf8 {d : Char} (hd : IsAscii d) (cs : List Char) :
    (utf8 cs).takeWhile (· ≠ d.toUInt8) = utf8 (cs.takeWhile (· ≠ d)) := by
  refine takeWhile_utf8 ?_ ?_ cs
  · intro c hc b hb
    refine decide_eq_true ?_
    rintro rfl
    exact of_decide_eq_true hc ((mem_utf8EncodeChar_iff hd).mp hb)
  · intro c hc b hb
    obtain rfl : c = d := by simpa using hc
    rw [utf8EncodeChar_of_isAscii hd] at hb
    obtain rfl := Option.some.inj hb
    simp

/-- The first byte shows a first character of one byte. -/
lemma head?_utf8_eq_iff {d : Char} (hd : IsAscii d) {cs : List Char} :
    (utf8 cs).head? = some d.toUInt8 ↔ cs.head? = some d := by
  cases cs with
  | nil => simp
  | cons c cs =>
    obtain ⟨b, bs, hbytes⟩ := List.exists_cons_of_ne_nil (String.utf8EncodeChar_ne_nil (c := c))
    rw [utf8_cons, hbytes, List.cons_append, List.head?_cons, List.head?_cons, Option.some_inj,
      Option.some_inj]
    constructor
    · rintro rfl
      exact (mem_utf8EncodeChar_iff hd).mp (by rw [hbytes]; exact List.mem_cons_self)
    · rintro rfl
      rw [utf8EncodeChar_of_isAscii hd] at hbytes
      exact (List.cons.inj hbytes).1.symm

lemma count_utf8 {d : Char} (hd : IsAscii d) (cs : List Char) :
    (utf8 cs).count d.toUInt8 = cs.count d := by
  induction cs with
  | nil => rfl
  | cons c cs ih =>
    rw [utf8_cons, List.count_append, ih, List.count_cons, Nat.add_comm]
    congr 1
    by_cases hc : c = d
    · subst hc
      rw [utf8EncodeChar_of_isAscii hd, if_pos (beq_self_eq_true c), List.count_singleton_self]
    · rw [if_neg (by simpa using hc)]
      exact List.count_eq_zero.mpr fun hmem => hc ((mem_utf8EncodeChar_iff hd).mp hmem)

/-- The place of a byte, or the end. -/
lemma getD_idxOf? (bs : List UInt8) (b : UInt8) :
    (bs.idxOf? b).getD bs.length = (bs.takeWhile (· ≠ b)).length := by
  induction bs with
  | nil => rfl
  | cons a bs ih =>
    rw [List.idxOf?_cons]
    by_cases ha : a = b
    · rw [if_pos (by simpa using ha), List.takeWhile_cons_of_neg (by simpa using ha)]
      rfl
    · rw [if_neg (by simpa using ha), List.takeWhile_cons_of_pos (by simpa using ha),
        List.length_cons, List.length_cons, ← ih]
      cases bs.idxOf? b with
      | none => rfl
      | some i => rfl

end Search

end GermanLox
