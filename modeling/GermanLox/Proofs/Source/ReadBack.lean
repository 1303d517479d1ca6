import GermanLox.Proofs.Number.Written
import GermanLox.Proofs.Source.Spaced
import GermanLox.Store

/-!
# Printed numbers read back

The printed form of a finite number is a numeral, with a minus in front if the sign is set. Scanning
cuts it into just these two, and the numeral has the number's own pattern, its sign apart.
-/

namespace GermanLox

open Binary64 Fragment

section Patterns

variable {bits : UInt64}

lemma isNegative_ofBits (h : bits.toNat % 2 ^ 63 < infinityBits) :
    isNegative (Float.ofBits bits) = decide (2 ^ 63 ≤ bits.toNat) := by
  rw [isNegative, toBits_ofBits h]
  rfl

lemma magnitude_ofBits (h : bits.toNat % 2 ^ 63 < infinityBits) :
    magnitude (Float.ofBits bits) = .finite (bits.toNat % 2 ^ 63) := by
  rw [magnitude, toBits_ofBits h]
  exact if_pos h

/-- The number with a given finite pattern has that pattern. -/
lemma toNat_toBits_ofBits {n : Nat} (h : n < infinityBits) : (ofBits n).toBits.toNat = n := by
  have hinfinity : infinityBits = 2047 * 2 ^ 52 := rfl
  have hsize : UInt64.size = 2 ^ 64 := rfl
  have hnat : (UInt64.ofNat n).toNat = n := UInt64.toNat_ofNat_of_lt' (by omega)
  rw [ofBits, toBits_ofBits (by rw [hnat]; omega), hnat]

end Patterns

namespace Number.Spells

variable {text : List Char} {x : ℚ} {bits : Nat}

/-- A numeral is a lexeme of the number that it is rounded to. -/
lemma lexeme (h : Spells text x) (hbits : Rounds x bits) (rest : List Char) :
    Lexeme (.token (.number (ofBits bits))) text rest := by
  cases h with
  | whole hne hdigits => exact .whole hne (fun c hc => digit_iff.mpr (hdigits c hc)) hbits
  | point hne hdigits hne' hplaces =>
    exact .point hne (fun c hc => digit_iff.mpr (hdigits c hc)) hne'
      (fun c hc => digit_iff.mpr (hplaces c hc)) hbits

/-- A numeral stays on its line. -/
lemma newline_not_mem (h : Spells text x) : '\n' ∉ text := by
  have hdigit : ¬ '\n'.isDigit = true := by decide
  cases h with
  | whole hne hdigits => exact fun hmem => hdigit (hdigits _ hmem)
  | point hne hdigits hne' hplaces =>
    simp only [List.mem_append, List.mem_cons, not_or]
    exact ⟨fun hmem => hdigit (hdigits _ hmem), by decide, fun hmem => hdigit (hplaces _ hmem)⟩

/-- A numeral at the end of a text is one token. -/
lemma place_split (h : Spells text x) (hbits : Rounds x bits) (line : Nat) :
    Item.place line (split text) =
      [.token ⟨.number (ofBits bits), String.ofList text, line⟩, .token ⟨.eof, "", line⟩] := by
  have hlongest := (h.lexeme hbits []).longest (by simp)
  have hsplit := split_of_longest hlongest
  rw [List.append_nil] at hsplit
  rw [hsplit, Item.place, List.count_eq_zero.mpr h.newline_not_mem]
  rfl

end Number.Spells

/-- No symbol of two characters starts with a minus. -/
lemma Symbol.ofSpelling?_minus (c : Char) :
    Symbol.ofSpelling? (String.ofList ['-', c]) = none := by
  rw [Option.eq_none_iff_forall_not_mem]
  intro s hs
  have hspelling := congrArg String.toList (Symbol.ofSpelling?_eq_some_iff.mp hs)
  rw [String.toList_ofList] at hspelling
  cases s <;> simp [Symbol.spelling] at hspelling

lemma Fragment.split_minus (cs : List Char) :
    split ('-' :: cs) = ⟨.token (.symbol .minus), ['-']⟩ :: split cs := by
  have hstarting : starting '-' cs = ⟨.token (.symbol .minus), ['-']⟩ := by
    rw [starting_other (by decide) (by decide) (by decide) (by decide) (by simp), symbolic]
    cases cs with
    | nil => rfl
    | cons c cs =>
      rw [List.head?_cons, Option.bind_some, Symbol.ofSpelling?_minus]
      rfl
  exact split_of_starting hstarting rfl

/-- The printed form of a finite number is a numeral, behind a minus just if the sign is set, and
scanning finds these two: the numeral has the pattern of the number with the sign cleared. A whole
number below `10 ^ 15` in size is printed as its plain digits. -/
theorem display_number_reads_back (s : Store) (bits : UInt64)
    (hfinite : bits.toNat % 2 ^ 63 < 0x7ff * 2 ^ 52) :
    ∃ (numeral : List Char) (value : ℚ) (x : Float),
      Number.Spells numeral value ∧ Rounds value (bits.toNat % 2 ^ 63) ∧
      s.display (.number (Float.ofBits bits)) =
        (if 2 ^ 63 ≤ bits.toNat then "-" else "") ++ String.ofList numeral ∧
      scan (s.display (.number (Float.ofBits bits))) =
        (if 2 ^ 63 ≤ bits.toNat then [Item.token ⟨.symbol .minus, "-", 1⟩] else []) ++
          [Item.token ⟨.number x, String.ofList numeral, 1⟩, Item.token ⟨.eof, "", 1⟩] ∧
      x.toBits.toNat = bits.toNat % 2 ^ 63 ∧
      ∀ n, Number.whole? (Float.ofBits bits) = some n → numeral = Nat.toDigits 10 n.natAbs := by
  have hmagnitude := magnitude_ofBits hfinite
  have hdisplay : s.display (.number (Float.ofBits bits)) =
      (if 2 ^ 63 ≤ bits.toNat then "-" else "") ++
        String.ofList (Number.numeral (bits.toNat % 2 ^ 63)) := by
    rw [Store.display, Number.text_eq_plain, Number.plain_finite hmagnitude,
      isNegative_ofBits hfinite]
    simp only [decide_eq_true_eq]
  obtain ⟨value, hspells, hrounds⟩ := Number.numeral_spells (Nat.le_of_lt hfinite)
  refine ⟨_, value, ofBits (bits.toNat % 2 ^ 63), hspells, hrounds, hdisplay, ?_,
    toNat_toBits_ofBits hfinite, fun n hn => Number.numeral_whole hmagnitude hn⟩
  rw [hdisplay, scan]
  split
  case isTrue =>
    have htext : ("-" ++ String.ofList (Number.numeral (bits.toNat % 2 ^ 63))).toList =
        '-' :: Number.numeral (bits.toNat % 2 ^ 63) := by simp
    rw [htext, split_minus, Item.place, hspells.place_split hrounds]
    rfl
  case isFalse =>
    rw [String.empty_append, String.toList_ofList, hspells.place_split hrounds]
    rfl

/-- The negative number of least size has a numeral of over three hundred places. -/
theorem display_least_reads_back :
    (0x8000000000000001 : UInt64).toNat % 2 ^ 63 < 0x7ff * 2 ^ 52 ∧
    ∃ (numeral : List Char) (x : Float),
      ({} : Store).display (.number (Float.ofBits 0x8000000000000001)) =
        "-" ++ String.ofList numeral ∧
      scan (({} : Store).display (.number (Float.ofBits 0x8000000000000001))) =
        [.token ⟨.symbol .minus, "-", 1⟩, .token ⟨.number x, String.ofList numeral, 1⟩,
          .token ⟨.eof, "", 1⟩] ∧
      x.toBits.toNat = 1 := by
  have hfinite : (0x8000000000000001 : UInt64).toNat % 2 ^ 63 < 0x7ff * 2 ^ 52 := by decide
  obtain ⟨numeral, value, x, -, -, hdisplay, hscan, hx, -⟩ :=
    display_number_reads_back {} 0x8000000000000001 hfinite
  exact ⟨hfinite, numeral, x, hdisplay, hscan, hx⟩

example : Number.text (Float.ofBits 0x8000000000000000) = "-0" := by decide +kernel
example : Number.text (Float.ofBits 0x3fb999999999999a) = "0.1" := by decide +kernel

end GermanLox
