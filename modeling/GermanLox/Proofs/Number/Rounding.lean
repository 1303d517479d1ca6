import GermanLox.Number.Decimal
import Mathlib.Algebra.Order.Field.Basic
import Mathlib.Algebra.Order.Group.Abs
import Mathlib.Data.List.TakeWhile
import Mathlib.Data.Nat.Digits.Defs
import Mathlib.Data.Rat.Cast.Order
import Mathlib.Order.Monotone.Basic
import Mathlib.Tactic.Positivity
import Mathlib.Tactic.Ring

/-!
# Correct rounding

The pattern that `Binary64.nearest` finds is the one whose value is nearest, and the even one of two
that are equally near. Infinity takes part as the power of two after the greatest finite value, so
that all from half a step above that value on goes to infinity.
-/

namespace GermanLox
namespace Binary64

/-- The value of a pattern; for infinity, the value that the next pattern would have. -/
def value (bits : Nat) : ℚ :=
  units bits / unitsPerOne

/-- The pattern that a number is rounded to. -/
structure Rounds (x : ℚ) (bits : Nat) : Prop where
  le : bits ≤ infinityBits
  nearest : ∀ other ≤ infinityBits, |value bits - x| ≤ |value other - x|
  even : ∀ other ≤ infinityBits, other ≠ bits → |value other - x| = |value bits - x| →
    bits % 2 = 0

section Values

lemma units_of_lt {bits : Nat} (h : bits < 2 ^ 52) : units bits = bits := by
  simp only [units, Nat.pow_eq]
  split
  case h_1 => exact Nat.mod_eq_of_lt h
  case h_2 => omega

lemma units_of_div_eq_succ {bits e : Nat} (h : bits / 2 ^ 52 = e + 1) :
    units bits = (2 ^ 52 + bits % 2 ^ 52) * 2 ^ e := by
  simp only [units, Nat.pow_eq]
  split
  case h_1 => omega
  case h_2 e' _ =>
    obtain rfl : e' = e := by omega
    rfl

/-- Within a binade, with the first pattern of the next one, values are evenly spaced. -/
lemma units_binade {e m : Nat} (hlow : 2 ^ 52 ≤ m ∨ e = 0) (hhigh : m ≤ 2 ^ 53) :
    units (e * 2 ^ 52 + m) = m * 2 ^ e := by
  rcases Nat.lt_or_ge m (2 ^ 52) with hm | hm
  · obtain rfl : e = 0 := hlow.resolve_left (Nat.not_le_of_lt hm)
    rw [Nat.zero_mul, Nat.zero_add, units_of_lt hm, Nat.pow_zero, Nat.mul_one]
  rcases Nat.lt_or_ge m (2 ^ 53) with hm' | hm'
  · have hdiv : (e * 2 ^ 52 + m) / 2 ^ 52 = e + 1 := by omega
    have hmod : 2 ^ 52 + (e * 2 ^ 52 + m) % 2 ^ 52 = m := by omega
    rw [units_of_div_eq_succ hdiv, hmod]
  · have hdiv : (e * 2 ^ 52 + m) / 2 ^ 52 = e + 1 + 1 := by omega
    have hmod : (2 ^ 52 + (e * 2 ^ 52 + m) % 2 ^ 52) * 2 = m := by omega
    rw [units_of_div_eq_succ hdiv, Nat.pow_succ' (n := e), ← Nat.mul_assoc, hmod]

lemma exists_binade (bits : Nat) :
    ∃ e m, bits = e * 2 ^ 52 + m ∧ (2 ^ 52 ≤ m ∨ e = 0) ∧ m < 2 ^ 53 := by
  rcases Nat.lt_or_ge bits (2 ^ 52) with hbits | hbits
  · exact ⟨0, bits, by omega, .inr rfl, by omega⟩
  · exact ⟨bits / 2 ^ 52 - 1, 2 ^ 52 + bits % 2 ^ 52, by omega, .inl (by omega), by omega⟩

/-- Patterns are ordered as their values. -/
lemma units_strictMono : StrictMono units := by
  refine strictMono_nat_of_lt_succ fun bits => ?_
  obtain ⟨e, m, rfl, hlow, hhigh⟩ := exists_binade bits
  rw [Nat.add_assoc, units_binade hlow (Nat.le_of_lt hhigh),
    units_binade (hlow.imp_left Nat.le_succ_of_le) hhigh]
  exact Nat.mul_lt_mul_of_pos_right (Nat.lt_succ_self m) (Nat.two_pow_pos e)

end Values

section Nearest

variable {num den : Nat}

/-- The binade that `nearest` rounds in, and the whole number of its steps that fit. -/
lemma steps_bounds {e : Nat}
    (he : e = (num * unitsPerOne / den).log2 - 52) :
    num * unitsPerOne / (den * 2 ^ e) < 2 ^ 53 ∧
      (2 ^ 52 ≤ num * unitsPerOne / (den * 2 ^ e) ∨ e = 0) := by
  rw [← Nat.div_div_eq_div_mul]
  generalize num * unitsPerOne / den = q at he ⊢
  constructor
  · rw [Nat.div_lt_iff_lt_mul (Nat.two_pow_pos e), ← Nat.pow_add]
    refine Nat.lt_of_lt_of_le Nat.lt_log2_self (Nat.pow_le_pow_right (by decide) ?_)
    omega
  · rcases Nat.eq_zero_or_pos e with he₀ | hpos
    · exact .inr he₀
    · left
      have hq : q ≠ 0 := by
        rintro rfl
        simp at he
        omega
      rw [Nat.le_div_iff_mul_le (Nat.two_pow_pos e), ← Nat.pow_add]
      refine Nat.le_trans (Nat.pow_le_pow_right (by decide) ?_) (Nat.log2_self_le hq)
      omega

/-- A number lies between two neighbouring patterns, and `nearest` takes the nearer one of them, if
it is a pattern at all. -/
lemma nearest_eq (hden : 0 < den) :
    ∃ below, units below * den ≤ num * unitsPerOne ∧
      num * unitsPerOne < units (below + 1) * den ∧
      nearest num den = min infinityBits
        (if num * unitsPerOne - units below * den < units (below + 1) * den - num * unitsPerOne ∨
            num * unitsPerOne - units below * den = units (below + 1) * den - num * unitsPerOne ∧
              below % 2 = 0
          then below else below + 1) := by
  obtain ⟨e, he⟩ : ∃ e, e = (num * unitsPerOne / den).log2 - 52 := ⟨_, rfl⟩
  obtain ⟨hhigh, hlow⟩ := steps_bounds he
  have hstep : 0 < den * 2 ^ e := Nat.mul_pos hden (Nat.two_pow_pos e)
  have hsplit := Nat.div_add_mod (num * unitsPerOne) (den * 2 ^ e)
  have hrest := Nat.mod_lt (num * unitsPerOne) hstep
  have hnearest : nearest num den =
      min infinityBits (e * 2 ^ 52 + roundDiv (num * unitsPerOne) (den * 2 ^ e)) := by
    rw [he]
    rfl
  rw [hnearest]
  unfold roundDiv
  generalize num * unitsPerOne = scaled at *
  generalize scaled / (den * 2 ^ e) = m at *
  generalize scaled % (den * 2 ^ e) = rest at *
  have hbelow : units (e * 2 ^ 52 + m) * den = den * 2 ^ e * m := by
    rw [units_binade hlow (Nat.le_of_lt hhigh)]
    ring
  have habove : units (e * 2 ^ 52 + m + 1) * den = den * 2 ^ e * m + den * 2 ^ e := by
    rw [Nat.add_assoc, units_binade (hlow.imp_left Nat.le_succ_of_le) hhigh,
      Nat.succ_eq_add_one]
    ring
  have hparity : (e * 2 ^ 52 + m) % 2 = m % 2 := by omega
  refine ⟨e * 2 ^ 52 + m, ?_⟩
  rw [hbelow, habove, hparity]
  generalize den * 2 ^ e * m = low at *
  generalize den * 2 ^ e = step at *
  refine ⟨by omega, by omega, congrArg (min infinityBits) ?_⟩
  have hiff : (2 * rest < step ∨ 2 * rest = step ∧ m % 2 = 0) ↔
      (scaled - low < low + step - scaled ∨ scaled - low = low + step - scaled ∧ m % 2 = 0) := by
    omega
  by_cases h : 2 * rest < step ∨ 2 * rest = step ∧ m % 2 = 0
  · rw [if_pos h, if_pos (hiff.mp h)]
  · rw [if_neg h, if_neg fun h' => h (hiff.mpr h'), Nat.add_assoc]

lemma unitsPerOne_pos : 0 < unitsPerOne := by
  unfold unitsPerOne
  generalize 1074 = n
  exact Nat.two_pow_pos n

/-- How far a pattern's value is from `num / den`, in units of which `den` make a least one. -/
def distance (num den bits : Nat) : Nat :=
  units bits * den - num * unitsPerOne + (num * unitsPerOne - units bits * den)

lemma abs_value_sub (hden : 0 < den) (bits : Nat) :
    |value bits - num / den| = (distance num den bits : ℚ) / (unitsPerOne * den) := by
  have hunits : (0 : ℚ) < unitsPerOne := Nat.cast_pos.mpr unitsPerOne_pos
  have hden' : (0 : ℚ) < den := Nat.cast_pos.mpr hden
  have hsub : value bits - num / den =
      ((units bits * den : ℕ) - (num * unitsPerOne : ℕ) : ℚ) / (unitsPerOne * den) := by
    rw [value, div_sub_div _ _ hunits.ne' hden'.ne', Nat.cast_mul, Nat.cast_mul,
      mul_comm (num : ℚ)]
  rw [hsub, abs_div, abs_of_pos (mul_pos hunits hden')]
  refine congrArg (· / _) ?_
  unfold distance
  rcases Nat.le_total (units bits * den) (num * unitsPerOne) with hle | hle
  · rw [Nat.sub_eq_zero_of_le hle, Nat.zero_add, Nat.cast_sub hle,
      abs_of_nonpos (sub_nonpos.mpr (Nat.cast_le.mpr hle)), neg_sub]
  · rw [Nat.sub_eq_zero_of_le hle, Nat.add_zero, Nat.cast_sub hle,
      abs_of_nonneg (sub_nonneg.mpr (Nat.cast_le.mpr hle))]

lemma rounds_iff (hden : 0 < den) (bits : Nat) :
    Rounds (num / den) bits ↔ bits ≤ infinityBits ∧
      (∀ other ≤ infinityBits, distance num den bits ≤ distance num den other) ∧
      ∀ other ≤ infinityBits, other ≠ bits → distance num den other = distance num den bits →
        bits % 2 = 0 := by
  have hunit : (0 : ℚ) < unitsPerOne * den :=
    mul_pos (Nat.cast_pos.mpr unitsPerOne_pos) (Nat.cast_pos.mpr hden)
  have hle : ∀ a b, |value a - num / den| ≤ |value b - num / den| ↔
      distance num den a ≤ distance num den b := by
    intro a b
    rw [abs_value_sub hden, abs_value_sub hden, div_le_div_iff_of_pos_right hunit, Nat.cast_le]
  have heq : ∀ a b, |value a - num / den| = |value b - num / den| ↔
      distance num den a = distance num den b := by
    intro a b
    rw [abs_value_sub hden, abs_value_sub hden, div_left_inj' hunit.ne', Nat.cast_inj]
  simp only [← hle, ← heq]
  exact ⟨fun h => ⟨h.le, h.nearest, h.even⟩, fun h => ⟨h.1, h.2.1, h.2.2⟩⟩

lemma distance_lt_of_below (hden : 0 < den) {a b : Nat} (hab : a < b)
    (hb : units b * den ≤ num * unitsPerOne) : distance num den b < distance num den a := by
  have := Nat.mul_lt_mul_of_pos_right (units_strictMono hab) hden
  unfold distance
  omega

lemma distance_lt_of_above (hden : 0 < den) {a b : Nat} (hab : a < b)
    (ha : num * unitsPerOne ≤ units a * den) : distance num den a < distance num den b := by
  have := Nat.mul_lt_mul_of_pos_right (units_strictMono hab) hden
  unfold distance
  omega

/-- What `nearest` finds is the correct rounding. -/
lemma nearest_rounds (hden : 0 < den) : Rounds (num / den) (nearest num den) := by
  obtain ⟨below, hbelow, habove, hnearest⟩ := @nearest_eq num den hden
  rw [rounds_iff hden, hnearest]
  by_cases hinf : infinityBits ≤ below
  · -- All patterns lie below the number, and infinity comes last.
    have hmin : ∀ n, below ≤ n → min infinityBits n = infinityBits := fun n hn =>
      Nat.min_eq_left (Nat.le_trans hinf hn)
    have hunits : units infinityBits * den ≤ num * unitsPerOne :=
      Nat.le_trans (Nat.mul_le_mul_right den (units_strictMono.monotone hinf)) hbelow
    have hfar : ∀ other ≤ infinityBits, other ≠ infinityBits →
        distance num den infinityBits < distance num den other := fun other hle hne =>
      distance_lt_of_below hden (Nat.lt_of_le_of_ne hle hne) hunits
    rw [hmin _ (by split <;> omega)]
    refine ⟨Nat.le_refl _, fun other hle => ?_, fun other hle hne heq => ?_⟩
    · rcases eq_or_ne other infinityBits with rfl | hne
      · exact Nat.le_refl _
      · exact Nat.le_of_lt (hfar other hle hne)
    · exact absurd heq (Nat.ne_of_gt (hfar other hle hne))
  · -- One of the two neighbours is nearer than, or as near as, all patterns.
    have hdistance : distance num den below = num * unitsPerOne - units below * den := by
      unfold distance
      omega
    have hdistance' : distance num den (below + 1) =
        units (below + 1) * den - num * unitsPerOne := by
      unfold distance
      omega
    rw [← hdistance, ← hdistance']
    have hother : ∀ other, other = below ∨ other = below + 1 ∨
        distance num den below < distance num den other ∨
        distance num den (below + 1) < distance num den other := by
      intro other
      rcases Nat.lt_trichotomy other below with h | h | h
      · exact .inr (.inr (.inl (distance_lt_of_below hden h hbelow)))
      · exact .inl h
      · rcases Nat.eq_or_lt_of_le h with h | h
        · exact .inr (.inl h.symm)
        · exact .inr (.inr (.inr (distance_lt_of_above hden h (Nat.le_of_lt habove))))
    rw [Nat.min_eq_right (by split <;> omega)]
    split
    case isTrue hnear =>
      refine ⟨by omega, fun other _ => ?_, fun other _ hne heq => ?_⟩
      · rcases hother other with rfl | rfl | h | h <;> omega
      · rcases hother other with rfl | rfl | h | h <;> omega
    case isFalse hnear =>
      refine ⟨by omega, fun other _ => ?_, fun other _ hne heq => ?_⟩
      · rcases hother other with rfl | rfl | h | h <;> omega
      · rcases hother other with rfl | rfl | h | h <;> omega

end Nearest

/-- Of two patterns that are equally near there is another between them, or one of them is odd. -/
lemma Rounds.unique {num den a b : Nat} (hden : 0 < den) (ha : Rounds (num / den) a)
    (hb : Rounds (num / den) b) : a = b := by
  wlog hab : a < b generalizing a b
  · rcases Nat.eq_or_lt_of_le (Nat.le_of_not_lt hab) with h | h
    · exact h.symm
    · exact (this hb ha h).symm
  exfalso
  obtain ⟨-, hna, hea⟩ := (rounds_iff hden a).mp ha
  obtain ⟨hle, hnb, heb⟩ := (rounds_iff hden b).mp hb
  have hsame : distance num den a = distance num den b :=
    Nat.le_antisymm (hna b hle) (hnb a (by omega))
  have heven := hea b hle (by omega) hsame.symm
  have heven' := heb a (by omega) (by omega) hsame
  have hbetween := hna (a + 1) (by omega)
  have hlow := Nat.mul_lt_mul_of_pos_right (units_strictMono (Nat.lt_succ_self a)) hden
  have hhigh := Nat.mul_lt_mul_of_pos_right (units_strictMono (show a + 1 < b by omega)) hden
  unfold distance at hsame hbetween
  rw [Nat.succ_eq_add_one] at hlow
  omega

end Binary64

namespace Number

/-- The number that digits before and after a point spell. -/
def decimal (whole places : List Char) : ℚ :=
  Nat.ofDigits 10 (whole.map (·.toNat - '0'.toNat)).reverse +
    Nat.ofDigits 10 (places.map (·.toNat - '0'.toNat)).reverse / 10 ^ places.length

lemma ofDigits_eq (digits : List Char) :
    ofDigits digits = Nat.ofDigits 10 (digits.map (·.toNat - '0'.toNat)).reverse := by
  have hfold : ∀ n, digits.foldl (fun n c => 10 * n + (c.toNat - '0'.toNat)) n =
      n * 10 ^ digits.length + Nat.ofDigits 10 (digits.map (·.toNat - '0'.toNat)).reverse := by
    induction digits with
    | nil => simp
    | cons c cs ih =>
      intro n
      rw [List.foldl_cons, ih, List.map_cons, List.reverse_cons, Nat.ofDigits_append,
        List.length_reverse, List.length_map, Nat.ofDigits_singleton, List.length_cons]
      ring
  rw [ofDigits, hfold, Nat.zero_mul, Nat.zero_add]

lemma decimal_eq (whole places : List Char) :
    decimal whole places = (ofDigits (whole ++ places) : ℕ) / (10 ^ places.length : ℕ) := by
  have hpos : (10 : ℚ) ^ places.length ≠ 0 := by positivity
  rw [decimal, ofDigits_eq, List.map_append, List.reverse_append, Nat.ofDigits_append,
    List.length_reverse, List.length_map]
  push_cast
  rw [add_div, mul_div_cancel_left₀ _ hpos, add_comm]

/-- A numeral without a point has the rounded value of its digits. -/
lemma ofLexeme_whole {whole : List Char} (hwhole : '.' ∉ whole) :
    ∃ bits, ofLexeme whole = Binary64.ofBits bits ∧ Binary64.Rounds (decimal whole []) bits := by
  have hne : ∀ c ∈ whole, decide (c ≠ '.') = true := fun c hc =>
    decide_eq_true (ne_of_mem_of_not_mem hc hwhole)
  refine ⟨_, rfl, ?_⟩
  rw [List.takeWhile_eq_self_iff.mpr hne, List.dropWhile_eq_nil_iff.mpr hne, decimal_eq]
  exact Binary64.nearest_rounds Nat.one_pos

/-- A numeral with a point has the rounded value of the digits on both sides. -/
lemma ofLexeme_point {whole : List Char} (places : List Char) (hwhole : '.' ∉ whole) :
    ∃ bits, ofLexeme (whole ++ '.' :: places) = Binary64.ofBits bits ∧
      Binary64.Rounds (decimal whole places) bits := by
  have hne : ∀ c ∈ whole, decide (c ≠ '.') = true := fun c hc =>
    decide_eq_true (ne_of_mem_of_not_mem hc hwhole)
  refine ⟨_, rfl, ?_⟩
  rw [List.takeWhile_append_of_pos hne, List.dropWhile_append_of_pos hne, decimal_eq]
  simp only [List.takeWhile_cons, List.dropWhile_cons, ne_eq, not_true_eq_false, decide_false,
    Bool.false_eq_true, if_false, List.append_nil, List.drop_one, List.tail_cons]
  exact Binary64.nearest_rounds (Nat.pow_pos (by decide))

end Number
end GermanLox
