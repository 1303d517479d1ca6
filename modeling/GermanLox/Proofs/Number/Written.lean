import GermanLox.Proofs.Number.Rounding
import Mathlib

/-!
# Numbers written out

The decimal written for a finite pattern is rounded to that pattern again. It is looked for among
those that are, and if none of up to seventeen digits were, all digits of the value would do. The
layout has the decimal's own value: filling up with zeros in front and leaving them out at the end
changes nothing behind a point. A whole number of at most fifteen digits is written with just these,
since no other whole number near it has its pattern.
-/

namespace GermanLox
namespace Binary64

lemma units_zero : units 0 = 0 :=
  units_of_lt (by decide)

lemma value_injective : Function.Injective value := by
  intro a b h
  have hunits : (unitsPerOne : ℚ) ≠ 0 := Nat.cast_ne_zero.mpr unitsPerOne_pos.ne'
  rw [value, value, div_left_inj' hunits, Nat.cast_inj] at h
  exact units_strictMono.injective h

/-- A value is rounded to the pattern whose value it is. -/
lemma rounds_value {bits : Nat} (h : bits ≤ infinityBits) : Rounds (value bits) bits where
  le := h
  nearest := by
    intro other _
    rw [sub_self, abs_zero]
    exact abs_nonneg _
  even := by
    intro other _ hne hsame
    rw [sub_self, abs_zero, abs_eq_zero, sub_eq_zero] at hsame
    exact absurd (value_injective hsame) hne

/-- A finite pattern is kept as it is. -/
lemma toBits_ofBits {bits : UInt64} (h : bits.toNat % 2 ^ 63 < infinityBits) :
    (Float.ofBits bits).toBits = bits := by
  have hnumber :
      @Float.Model.UnpackedFloat.isNaNBits .binary64 bits.toBitVec = false := by
    rw [Float.Model.UnpackedFloat.isNaNBits, decide_eq_false_iff_not]
    rintro ⟨hexponent, -⟩
    have hones := congrArg BitVec.toNat hexponent
    simp [Float.Model.UnpackedFloat.unpackExponent, Nat.shiftRight_eq_div_pow] at hones
    have hinfinity : infinityBits = 2047 * 2 ^ 52 := rfl
    omega
  -- The whole library is imported for this lemma alone: no smaller part of it has the lemma.
  have hpack := @Float.Model.UnpackedFloat.pack_unpack .binary64 bits.toBitVec (by decide)
  rw [hnumber, if_neg Bool.false_ne_true] at hpack
  exact congrArg UInt64.ofBitVec hpack

/-- A whole number that fits into a mantissa is the value of a pattern. -/
lemma exists_units_eq {n : Nat} (hn : n < 2 ^ 53) :
    ∃ bits ≤ infinityBits, units bits = n * unitsPerOne := by
  rcases Nat.eq_zero_or_pos n with rfl | hpos
  · exact ⟨0, Nat.zero_le _, by rw [units_zero, Nat.zero_mul]⟩
  obtain ⟨e, he⟩ : ∃ e, e = n.log2 := ⟨_, rfl⟩
  have hle : e ≤ 52 := by
    rw [he]
    exact Nat.le_of_lt_succ ((Nat.log2_lt hpos.ne').mpr hn)
  have hlow : 2 ^ 52 ≤ n * 2 ^ (52 - e) := by
    calc 2 ^ 52 = 2 ^ e * 2 ^ (52 - e) := by rw [← Nat.pow_add, Nat.add_sub_cancel' hle]
      _ ≤ n * 2 ^ (52 - e) := Nat.mul_le_mul_right _ (he ▸ Nat.log2_self_le hpos.ne')
  have hhigh : n * 2 ^ (52 - e) < 2 ^ 53 := by
    calc n * 2 ^ (52 - e) < 2 ^ (e + 1) * 2 ^ (52 - e) :=
          Nat.mul_lt_mul_of_pos_right (he ▸ Nat.lt_log2_self) (Nat.two_pow_pos _)
      _ = 2 ^ 53 := by rw [← Nat.pow_add, show e + 1 + (52 - e) = 53 by omega]
  refine ⟨(1022 + e) * 2 ^ 52 + n * 2 ^ (52 - e), ?_, ?_⟩
  · have hinfinity : infinityBits = 2047 * 2 ^ 52 := rfl
    omega
  · have hexponent : 52 - e + (1022 + e) = 1074 := by omega
    unfold unitsPerOne
    generalize 1074 = k at hexponent
    rw [units_binade (.inl hlow) hhigh.le, Nat.mul_assoc, ← Nat.pow_add, hexponent, Nat.pow_eq]

lemma value_of_units {bits n : Nat} (h : units bits = n * unitsPerOne) : value bits = n := by
  have hunits : (unitsPerOne : ℚ) ≠ 0 := Nat.cast_ne_zero.mpr unitsPerOne_pos.ne'
  rw [value, h, Nat.cast_mul, mul_div_cancel_right₀ _ hunits]

end Binary64

namespace Decimal

/-- The number that a decimal stands for. -/
def value (d : Decimal) : ℚ :=
  d.digits * 10 ^ d.exponent

lemma value_ofNat (digits s : Nat) : value ⟨digits, .ofNat s⟩ = (digits * 10 ^ s : ℕ) := by
  rw [value, Int.ofNat_eq_natCast, zpow_natCast]
  push_cast
  rfl

lemma value_negSucc (digits s : Nat) :
    value ⟨digits, .negSucc s⟩ = digits / (10 ^ (s + 1) : ℕ) := by
  rw [value, zpow_negSucc, ← div_eq_mul_inv]
  push_cast
  rfl

lemma toBits_rounds (d : Decimal) : Binary64.Rounds d.value d.toBits := by
  obtain ⟨digits, s | s⟩ := d
  · have h := @Binary64.nearest_rounds (digits * 10 ^ s) 1 Nat.one_pos
    rw [Nat.cast_one, div_one, ← value_ofNat] at h
    exact h
  · have h := @Binary64.nearest_rounds digits (10 ^ (s + 1)) (Nat.pow_pos (by decide))
    rw [← value_negSucc] at h
    exact h

lemma value_fives (units n : Nat) :
    value ⟨units * Nat.pow 5 n, -n⟩ = (units : ℚ) / (Nat.pow 2 n : ℕ) := by
  have hfive : (5 : ℚ) ^ n ≠ 0 := by positivity
  rw [value, zpow_neg, zpow_natCast, ← div_eq_mul_inv, Nat.pow_eq, Nat.pow_eq]
  push_cast
  rw [show (10 : ℚ) = 2 * 5 by norm_num, mul_pow, mul_div_mul_right _ _ hfive]

lemma value_exact (bits : Nat) : (exact bits).value = Binary64.value bits := by
  unfold exact Binary64.value Binary64.unitsPerOne
  rw [show (-1074 : ℤ) = -(1074 : ℕ) from rfl]
  -- As a variable the exponent keeps its powers from being evaluated.
  generalize 1074 = n
  exact value_fives (Binary64.units bits) n

/-- What is found reads back; else all digits are taken. -/
lemma shortest_cases (bits : Nat) : (shortest bits).toBits = bits ∨ shortest bits = exact bits := by
  simp only [shortest]
  generalize hfound : (List.range 17).findSome? _ = found
  cases found with
  | none => exact .inr rfl
  | some d =>
    obtain ⟨count, -, hgrid⟩ := List.exists_of_findSome?_eq_some hfound
    exact .inl (by simpa using List.find?_some hgrid)

/-- The decimal that is written is rounded to the pattern that it is written for. -/
lemma shortest_rounds {bits : Nat} (h : bits ≤ Binary64.infinityBits) :
    Binary64.Rounds (shortest bits).value bits := by
  rcases shortest_cases bits with hbits | hexact
  · have hrounds := toBits_rounds (shortest bits)
    rw [hbits] at hrounds
    exact hrounds
  · rw [hexact, value_exact]
    exact Binary64.rounds_value h

end Decimal

namespace Number

/-- One or more digits, perhaps with a point and one or more digits behind it, and the number that
they spell. -/
inductive Spells : List Char → ℚ → Prop
  | whole {digits} (hne : digits ≠ []) (hdigits : ∀ c ∈ digits, c.isDigit = true) :
    Spells digits (decimal digits [])
  | point {digits places} (hne : digits ≠ []) (hdigits : ∀ c ∈ digits, c.isDigit = true)
    (hne' : places ≠ []) (hplaces : ∀ c ∈ places, c.isDigit = true) :
    Spells (digits ++ '.' :: places) (decimal digits places)

lemma ofDigits_toDigits (n : Nat) : ofDigits (Nat.toDigits 10 n) = n :=
  Nat.ofDigitChars_ten_toDigits

lemma ofDigits_append (digits more : List Char) :
    ofDigits (digits ++ more) = 10 ^ more.length * ofDigits digits + ofDigits more :=
  Nat.ofDigitChars_append 0 |>.trans Nat.ofDigitChars_eq_ofDigitChars_zero

lemma ofDigits_zeros (n : Nat) : ofDigits (List.replicate n '0') = 0 :=
  Nat.ofDigitChars_replicate_zero.trans (Nat.mul_zero _)

lemma decimal_nil (whole : List Char) : decimal whole [] = ofDigits whole := by
  rw [decimal_eq, List.append_nil, List.length_nil, Nat.pow_zero, Nat.cast_one, div_one]

lemma decimal_eq_add (whole places : List Char) :
    decimal whole places = ofDigits whole + ofDigits places / (10 ^ places.length : ℕ) := by
  rw [decimal, ofDigits_eq, ofDigits_eq]
  push_cast
  rfl

/-- Zeros at the end of the places do not count. -/
lemma decimal_append_zeros (whole places : List Char) (n : Nat) :
    decimal whole (places ++ List.replicate n '0') = decimal whole places := by
  have hpow : ((10 ^ n : ℕ) : ℚ) ≠ 0 := by positivity
  rw [decimal_eq_add, decimal_eq_add, ofDigits_append, ofDigits_zeros, Nat.add_zero,
    List.length_append, List.length_replicate, Nat.pow_add, Nat.cast_mul, Nat.cast_mul,
    mul_comm ((10 ^ n : ℕ) : ℚ), mul_div_mul_right _ _ hpow]

end Number

namespace Decimal

open Number

lemma isDigit_of_mem {n : Nat} {c : Char} (h : c ∈ Nat.toDigits 10 n) : c.isDigit = true :=
  Nat.isDigit_of_mem_toDigits (by decide) (by decide) h

lemma isDigit_of_mem_fraction {places n : Nat} {c : Char} (h : c ∈ fraction places n) :
    c.isDigit = true := by
  unfold fraction at h
  rw [List.mem_reverse] at h
  have hmem := List.mem_reverse.mp ((List.dropWhile_sublist _).mem h)
  rcases List.mem_append.mp hmem with hzero | hdigit
  · rw [List.eq_of_mem_replicate hzero]
    decide
  · exact isDigit_of_mem hdigit

/-- Of nothing no place is left. -/
lemma fraction_zero (places : Nat) : fraction places 0 = [] := by
  apply List.rdropWhile_eq_nil_iff.mpr
  intro c hc
  rw [Nat.toDigits_zero, ← List.replicate_succ'] at hc
  rw [List.eq_of_mem_replicate hc]
  decide

/-- The places stand for the fraction that they were made from. -/
lemma decimal_fraction {places n : Nat} (hn : n < 10 ^ places) (hplaces : 0 < places)
    (whole : List Char) :
    decimal whole (fraction places n) = ofDigits whole + n / (10 ^ places : ℕ) := by
  obtain ⟨padded, hpadded⟩ : ∃ padded, padded =
      List.replicate (places - (Nat.toDigits 10 n).length) '0' ++ Nat.toDigits 10 n := ⟨_, rfl⟩
  have hlength : padded.length = places := by
    have := (Nat.length_toDigits_le_iff (by decide) hplaces).mpr hn
    rw [hpadded, List.length_append, List.length_replicate]
    omega
  have hvalue : ofDigits padded = n := by
    rw [hpadded, ofDigits_append, ofDigits_zeros, ofDigits_toDigits, Nat.mul_zero, Nat.zero_add]
  have hzeros : padded.rtakeWhile (· = '0') =
      List.replicate (padded.rtakeWhile (· = '0')).length '0' :=
    List.eq_replicate_of_mem fun c hc => by simpa using List.mem_rtakeWhile_imp hc
  have hfraction : fraction places n = padded.rdropWhile (· = '0') := by
    rw [hpadded]
    rfl
  calc decimal whole (fraction places n)
      = decimal whole (padded.rdropWhile (· = '0') ++ padded.rtakeWhile (· = '0')) := by
        rw [hzeros, decimal_append_zeros, hfraction]
    _ = decimal whole padded := by rw [List.rdropWhile_append_rtakeWhile]
    _ = ofDigits whole + n / (10 ^ places : ℕ) := by rw [decimal_eq_add, hvalue, hlength]

lemma value_eq_add (digits s : Nat) : value ⟨digits, .negSucc s⟩ =
    (digits / 10 ^ (s + 1) : ℕ) + (digits % 10 ^ (s + 1) : ℕ) / (10 ^ (s + 1) : ℕ) := by
  have hstep : ((10 ^ (s + 1) : ℕ) : ℚ) ≠ 0 := by positivity
  have hsplit := congrArg (Nat.cast (R := ℚ)) (Nat.div_add_mod digits (10 ^ (s + 1)))
  rw [Nat.cast_add, Nat.cast_mul] at hsplit
  rw [value_negSucc, ← hsplit, add_div, mul_div_cancel_left₀ _ hstep]

lemma layout_negSucc (digits s : Nat) : layout ⟨digits, .negSucc s⟩ =
    if fraction (s + 1) (digits % 10 ^ (s + 1)) = [] then Nat.toDigits 10 (digits / 10 ^ (s + 1))
    else Nat.toDigits 10 (digits / 10 ^ (s + 1)) ++
      '.' :: fraction (s + 1) (digits % 10 ^ (s + 1)) := by
  simp only [layout, Nat.pow_eq]
  by_cases hzero : digits % 10 ^ (s + 1) = 0
  · rw [if_pos hzero, hzero, fraction_zero, if_pos rfl]
  · rw [if_neg hzero]
    cases fraction (s + 1) (digits % 10 ^ (s + 1)) with
    | nil => rfl
    | cons c cs => rfl

/-- A decimal is written with digits that spell its value. -/
lemma layout_spells (d : Decimal) : Spells d.layout d.value := by
  obtain ⟨digits, s | s⟩ := d
  · rw [value_ofNat, ← ofDigits_toDigits (digits * 10 ^ s), ← decimal_nil]
    exact .whole Nat.toDigits_ne_nil fun c => isDigit_of_mem
  · have hvalue : decimal (Nat.toDigits 10 (digits / 10 ^ (s + 1)))
        (fraction (s + 1) (digits % 10 ^ (s + 1))) = value ⟨digits, .negSucc s⟩ := by
      rw [decimal_fraction (Nat.mod_lt _ (Nat.pow_pos (by decide))) s.succ_pos, ofDigits_toDigits,
        value_eq_add]
    rw [layout_negSucc, ← hvalue]
    split
    case isTrue hnil =>
      rw [hnil]
      exact .whole Nat.toDigits_ne_nil fun c => isDigit_of_mem
    case isFalse hne =>
      exact .point Nat.toDigits_ne_nil (fun c => isDigit_of_mem) hne
        fun c => isDigit_of_mem_fraction

section Whole

open Binary64

lemma toBits_eq_of_value {d : Decimal} {bits : Nat} (hbits : bits ≤ infinityBits)
    (h : d.value = Binary64.value bits) : d.toBits = bits := by
  have hrounds := d.toBits_rounds
  rw [h] at hrounds
  exact hrounds.unique unitsPerOne_pos (rounds_value hbits)

lemma order_whole {n : Nat} (hpos : 0 < n) : order (n * unitsPerOne) = length n := by
  rw [order, if_pos (Nat.le_mul_of_pos_left _ hpos), Nat.mul_div_cancel _ unitsPerOne_pos]

lemma stepsWithin_whole (n s : Nat) :
    stepsWithin (n * unitsPerOne) (.ofNat s) = n / 10 ^ s := by
  rw [stepsWithin, Nat.mul_comm n, Nat.mul_div_mul_left _ _ unitsPerOne_pos, Nat.pow_eq]

lemma mem_neighbours {units : Nat} {exponent : Int} {d : Decimal} :
    d ∈ neighbours units exponent ↔ d = ⟨stepsWithin units exponent, exponent⟩ ∨
      d = ⟨stepsWithin units exponent + 1, exponent⟩ := by
  simp only [neighbours]
  split
  · rw [List.mem_pair, or_comm]
  · rw [List.mem_pair]

/-- No grid is passed over that has a neighbour which reads back. -/
lemma shortest_mem_neighbours {bits count : Nat} {d : Decimal} (hcount : count < 17)
    (hmem : d ∈ neighbours (units bits) (order (units bits) - (count + 1 : Nat)))
    (hd : d.toBits = bits) :
    (shortest bits).toBits = bits ∧ ∃ count' ≤ count,
      shortest bits ∈ neighbours (units bits) (order (units bits) - (count' + 1 : Nat)) := by
  simp only [shortest]
  generalize hfound : (List.range 17).findSome? _ = found
  cases found with
  | none =>
    have hnone := List.findSome?_eq_none_iff.mp hfound count (List.mem_range.mpr hcount)
    exact absurd (decide_eq_true hd) (List.find?_eq_none.mp hnone d hmem)
  | some d' =>
    obtain ⟨before, count', after, hrange, hgrid, hbefore⟩ :=
      List.findSome?_eq_some_iff.mp hfound
    refine ⟨by simpa using List.find?_some hgrid, count', ?_, List.mem_of_find?_eq_some hgrid⟩
    by_contra hlt
    have hcount' := List.mem_range.mpr hcount
    have hsorted := List.pairwise_lt_range (n := 17)
    rw [hrange, List.mem_append, List.mem_cons] at hcount'
    rw [hrange, List.pairwise_append, List.pairwise_cons] at hsorted
    rcases hcount' with hin | heq | hin
    · exact absurd (decide_eq_true hd) (List.find?_eq_none.mp (hbefore count hin) d hmem)
    · omega
    · have := hsorted.2.1.1 count hin
      omega

/-- A decimal that is a small whole number is read exactly. -/
lemma units_toBits {d : Decimal} {n : Nat} (hn : n < 2 ^ 53) (hd : d.value = n) :
    units d.toBits = n * unitsPerOne := by
  obtain ⟨bits, hle, hunits⟩ := exists_units_eq hn
  rw [toBits_eq_of_value hle (hd.trans (value_of_units hunits).symm), hunits]

/-- For a whole number of at most fifteen digits, the grid that is taken is one of whole numbers:
the finest of these has the number itself. -/
lemma shortest_whole {bits n : Nat} (hpos : 0 < n) (hn : n < 10 ^ 15)
    (hbits : units bits = n * unitsPerOne) :
    (shortest bits).toBits = bits ∧
      ∃ m s, shortest bits = ⟨m, .ofNat s⟩ ∧ s < 15 ∧ m ≤ n / 10 ^ s + 1 := by
  have hlength : length n ≤ 15 := (Nat.length_toDigits_le_iff (by decide) (by decide)).mpr hn
  obtain ⟨count, hcount⟩ : ∃ count, length n = count + 1 :=
    Nat.exists_eq_add_one.mpr Nat.length_toDigits_pos
  have horder : ∀ c ≤ count, order (units bits) - (c + 1 : Nat) = .ofNat (count - c) := by
    intro c hc
    rw [hbits, order_whole hpos, hcount, Int.ofNat_eq_natCast]
    omega
  have hsteps : ∀ s, stepsWithin (units bits) (.ofNat s) = n / 10 ^ s := by
    intro s
    rw [hbits, stepsWithin_whole]
  have hself : (⟨n, .ofNat 0⟩ : Decimal).toBits = bits := by
    have hvalue : (⟨n, .ofNat 0⟩ : Decimal).value = n := by
      rw [value_ofNat, Nat.pow_zero, Nat.mul_one]
    apply units_strictMono.injective
    rw [hbits, units_toBits (by omega) hvalue]
  have hmem : ⟨n, .ofNat 0⟩ ∈ neighbours (units bits) (order (units bits) - (count + 1 : Nat)) := by
    rw [horder count (Nat.le_refl _), Nat.sub_self, mem_neighbours, hsteps, Nat.pow_zero,
      Nat.div_one]
    exact .inl rfl
  obtain ⟨hread, count', hle, hgrid⟩ := shortest_mem_neighbours (by omega) hmem hself
  rw [horder count' hle, mem_neighbours, hsteps] at hgrid
  refine ⟨hread, ?_⟩
  rcases hgrid with h | h
  · exact ⟨_, _, h, by omega, Nat.le_succ _⟩
  · exact ⟨_, _, h, by omega, Nat.le_refl _⟩

/-- A whole number of at most fifteen digits is written with all of them. -/
lemma layout_shortest_whole {bits n : Nat} (hpos : 0 < n) (hn : n < 10 ^ 15)
    (hbits : units bits = n * unitsPerOne) : (shortest bits).layout = Nat.toDigits 10 n := by
  obtain ⟨hread, m, s, hshortest, hs, hm⟩ := shortest_whole hpos hn hbits
  have hsmall : m * 10 ^ s < 2 ^ 53 := by
    have hpow : 10 ^ s ≤ 10 ^ 14 := Nat.pow_le_pow_right (by decide) (by omega)
    have hfloor := Nat.div_mul_le_self n (10 ^ s)
    calc m * 10 ^ s ≤ (n / 10 ^ s + 1) * 10 ^ s := Nat.mul_le_mul_right _ hm
      _ = n / 10 ^ s * 10 ^ s + 10 ^ s := Nat.succ_mul _ _
      _ < 2 ^ 53 := by omega
  have hsame : m * 10 ^ s = n := by
    have hunits := units_toBits hsmall (value_ofNat m s)
    rw [← hshortest, hread, hbits] at hunits
    exact Nat.eq_of_mul_eq_mul_right unitsPerOne_pos hunits.symm
  rw [hshortest, ← hsame]
  rfl

end Whole

end Decimal

namespace Number

open Binary64

/-- What is written for a finite pattern, its sign apart. -/
def numeral (bits : Nat) : List Char :=
  if bits = 0 then ['0'] else (Decimal.shortest bits).layout

lemma plain_finite {x : Float} {bits : Nat} (h : magnitude x = .finite bits) :
    plain x = (if isNegative x then "-" else "") ++ String.ofList (numeral bits) := by
  unfold plain numeral
  rw [h]
  cases bits with
  | zero => rfl
  | succ n => simp only [if_neg n.succ_ne_zero]

/-- A finite pattern is written as a numeral that is rounded to it. -/
lemma numeral_spells {bits : Nat} (h : bits ≤ infinityBits) :
    ∃ x, Spells (numeral bits) x ∧ Rounds x bits := by
  unfold numeral
  split
  case isTrue hzero =>
    subst hzero
    refine ⟨_, .whole (List.cons_ne_nil _ _) (by simp), ?_⟩
    have hvalue : value 0 = decimal ['0'] [] := by
      rw [decimal_nil, value, units_zero, Nat.cast_zero, zero_div]
      rfl
    rw [← hvalue]
    exact rounds_value h
  case isFalse =>
    exact ⟨_, Decimal.layout_spells _, Decimal.shortest_rounds h⟩

lemma eq_of_whole? {x : Float} {n : Int} (h : whole? x = some n) :
    ∃ bits k, magnitude x = .finite bits ∧ units bits = k * unitsPerOne ∧ k < 10 ^ 15 ∧
      n = if isNegative x then -(k : Int) else k := by
  unfold whole? at h
  cases hmagnitude : magnitude x with
  | notANumber => simp only [hmagnitude, reduceCtorEq] at h
  | infinite => simp only [hmagnitude, reduceCtorEq] at h
  | finite bits =>
    simp only [hmagnitude] at h
    split at h
    case isFalse => cases h
    case isTrue hwhole =>
      obtain ⟨hmod, hlt⟩ := hwhole
      have hsmall : units bits / unitsPerOne < 10 ^ 15 := by
        have hpos := unitsPerOne_pos
        generalize unitsPerOne = one at hpos hlt ⊢
        exact (Nat.div_lt_iff_lt_mul hpos).mpr hlt
      rw [← Int.natCast_div] at h
      exact ⟨bits, _, rfl, (Nat.div_mul_cancel (Nat.dvd_of_mod_eq_zero hmod)).symm, hsmall,
        (Option.some.inj h).symm⟩

/-- A whole number below `10 ^ 15` is written as its plain digits. -/
lemma numeral_of_units {bits k : Nat} (h : units bits = k * unitsPerOne) (hk : k < 10 ^ 15) :
    numeral bits = Nat.toDigits 10 k := by
  unfold numeral
  split
  case isTrue hzero =>
    rw [hzero, units_zero] at h
    rw [(Nat.mul_eq_zero.mp h.symm).resolve_right unitsPerOne_pos.ne']
    rfl
  case isFalse hne =>
    refine Decimal.layout_shortest_whole (Nat.pos_of_ne_zero fun hzero => ?_) hk h
    rw [hzero, Nat.zero_mul, ← units_zero] at h
    exact hne (units_strictMono.injective h)

lemma numeral_whole {x : Float} {bits : Nat} (h : magnitude x = .finite bits) {n : Int}
    (hn : whole? x = some n) : numeral bits = Nat.toDigits 10 n.natAbs := by
  obtain ⟨bits', k, hbits, hunits, hk, rfl⟩ := eq_of_whole? hn
  obtain rfl : bits' = bits := by rwa [hbits, Magnitude.finite.injEq] at h
  rw [numeral_of_units hunits hk]
  split
  · rw [Int.natAbs_neg, Int.natAbs_natCast]
  · rw [Int.natAbs_natCast]

/-- The ways to print a number agree. -/
theorem text_eq_plain (x : Float) : text x = plain x := by
  unfold text
  split
  case isTrue hzero =>
    rw [plain_finite hzero.1, if_pos hzero.2]
    rfl
  case isFalse hne =>
    cases hwhole : whole? x with
    | none => rfl
    | some n =>
      obtain ⟨bits, k, hbits, hunits, hk, rfl⟩ := eq_of_whole? hwhole
      rw [plain_finite hbits, numeral_of_units hunits hk]
      dsimp only
      cases hsign : isNegative x with
      | false => rfl
      | true =>
        cases k with
        | zero =>
          rw [Nat.zero_mul, ← units_zero] at hunits
          rw [units_strictMono.injective hunits] at hbits
          exact absurd ⟨hbits, hsign⟩ hne
        | succ k => rfl

end Number
end GermanLox
