import GermanLox.Number.Binary64

/-!
# Decimal text of binary64 numbers

`Decimal.shortest` picks, among the decimals that read back to a given number, one with the
fewest digits and of those the nearest; an exact tie goes up. `Number.plain` writes it without an
exponent, and `Number.ofLexeme` reads such a text.
-/

namespace GermanLox

/-- The value `digits * 10 ^ exponent`. -/
structure Decimal where
  digits : Nat
  exponent : Int
deriving DecidableEq

namespace Decimal

/-- The bit pattern nearest to a decimal. -/
def toBits : Decimal → Nat
  | ⟨digits, .ofNat s⟩ => Binary64.nearest (digits * Nat.pow 10 s) 1
  | ⟨digits, .negSucc s⟩ => Binary64.nearest digits (Nat.pow 10 (s + 1))

/-- How many whole steps of `10 ^ exponent` fit into `units`. -/
def stepsWithin (units : Nat) : Int → Nat
  | .ofNat s => units / (Binary64.unitsPerOne * Nat.pow 10 s)
  | .negSucc s => units * Nat.pow 10 (s + 1) / Binary64.unitsPerOne

/-- The number of decimal digits of a whole number. -/
def length (n : Nat) : Nat :=
  (Nat.toDigits 10 n).length

/-- The least `k` with `units` below `10 ^ k`, for `units` other than zero. -/
def order (units : Nat) : Int :=
  if Binary64.unitsPerOne ≤ units then length (units / Binary64.unitsPerOne)
  else 1 - length ((Binary64.unitsPerOne - 1) / units)

/-- The neighbours of a number on the grid of step `10 ^ exponent`, the nearer one first. -/
def neighbours (units : Nat) (exponent : Int) : List Decimal :=
  let below := stepsWithin units exponent
  if stepsWithin (2 * units) exponent % 2 = 1 then
    [⟨below + 1, exponent⟩, ⟨below, exponent⟩]
  else
    [⟨below, exponent⟩, ⟨below + 1, exponent⟩]

/-- All digits of a finite pattern's value. -/
def exact (bits : Nat) : Decimal :=
  ⟨Binary64.units bits * Nat.pow 5 1074, -1074⟩

/-- The decimal with the fewest digits that reads back to a finite pattern. Grids of one to
seventeen digits are tried in turn; all digits are the last resort. -/
def shortest (bits : Nat) : Decimal :=
  let units := Binary64.units bits
  let onGrid (count : Nat) : Option Decimal :=
    (neighbours units (order units - (count + 1 : Nat))).find? (·.toBits = bits)
  ((List.range 17).findSome? onGrid).getD (exact bits)

/-- The digits after the point: `places` many, less the zeros at the end. -/
def fraction (places n : Nat) : List Char :=
  let digits := Nat.toDigits 10 n
  let padded := List.replicate (places - digits.length) '0' ++ digits
  (padded.reverse.dropWhile (· = '0')).reverse

/-- A decimal written out without an exponent. -/
def layout : Decimal → List Char
  | ⟨digits, .ofNat s⟩ => Nat.toDigits 10 (digits * Nat.pow 10 s)
  | ⟨digits, .negSucc s⟩ =>
    let step := Nat.pow 10 (s + 1)
    let whole := Nat.toDigits 10 (digits / step)
    match if digits % step = 0 then [] else fraction (s + 1) (digits % step) with
    | [] => whole
    | places => whole ++ '.' :: places

end Decimal

namespace Number

/-- The shortest digits that read back to a number, never with an exponent. -/
def plain (x : Float) : String :=
  let sign := if Binary64.isNegative x then "-" else ""
  match Binary64.magnitude x with
  | .notANumber => "NaN"
  | .infinite => sign ++ "inf"
  | .finite 0 => sign ++ "0"
  | .finite bits => sign ++ String.ofList (Decimal.shortest bits).layout

/-- The whole number a number is, if it is one below `10 ^ 15` in size. -/
def whole? (x : Float) : Option Int :=
  match Binary64.magnitude x with
  | .finite bits =>
    let units := Binary64.units bits
    if units % Binary64.unitsPerOne = 0 ∧ units < Nat.pow 10 15 * Binary64.unitsPerOne then
      let n : Int := units / Binary64.unitsPerOne
      some (if Binary64.isNegative x then -n else n)
    else none
  | _ => none

/-- The printed form of a number. Minus zero and short whole numbers are written in ways of their
own, which come to the same as the plain one. -/
def text (x : Float) : String :=
  if Binary64.magnitude x = .finite 0 ∧ Binary64.isNegative x then "-0"
  else
    match whole? x with
    | some n => n.repr
    | none => plain x

/-- The whole number spelled by decimal digits. -/
def ofDigits (digits : List Char) : Nat :=
  digits.foldl (fun n c => 10 * n + (c.toNat - '0'.toNat)) 0

/-- The number nearest to what a text of digits, with or without a point among them, spells. -/
def ofLexeme (lexeme : List Char) : Float :=
  let whole := lexeme.takeWhile (· ≠ '.')
  let places := (lexeme.dropWhile (· ≠ '.')).drop 1
  Binary64.ofBits (Binary64.nearest (ofDigits (whole ++ places)) (Nat.pow 10 places.length))

end Number
end GermanLox
