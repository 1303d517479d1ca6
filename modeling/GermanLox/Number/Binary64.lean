/-!
# Binary64 magnitudes as whole numbers

Every finite binary64 magnitude is a whole multiple of the least positive one, `2 ^ -1074`.
Counting in that unit keeps all arithmetic in `Nat`: a bit pattern with its sign cleared stands
for `units` many of them, and `nearest` goes from a fraction to the pattern whose value lies
closest, a tie going to the even pattern.
-/

namespace GermanLox
namespace Binary64

/-- How many least units make one. -/
def unitsPerOne : Nat := Nat.pow 2 1074

/-- The first bit pattern above all finite ones. -/
def infinityBits : Nat := 0x7ff * Nat.pow 2 52

/-- The value of a finite pattern, in least units. -/
def units (bits : Nat) : Nat :=
  match bits / Nat.pow 2 52 with
  | 0 => bits % Nat.pow 2 52
  | e + 1 => (Nat.pow 2 52 + bits % Nat.pow 2 52) * Nat.pow 2 e

/-- Division to the nearest whole number; a half goes to the even neighbour. -/
def roundDiv (num den : Nat) : Nat :=
  let quotient := num / den
  let twice := 2 * (num % den)
  if twice < den ∨ twice = den ∧ quotient % 2 = 0 then quotient else quotient + 1

/-- The pattern whose value is nearest to `num / den`, infinity from half a step above the
greatest finite value on. The binade is found from the whole number of units; a mantissa that
rounds up to the next power of two carries into the exponent field by itself. -/
def nearest (num den : Nat) : Nat :=
  let scaled := num * unitsPerOne
  let binade := (scaled / den).log2 - 52
  min infinityBits (binade * Nat.pow 2 52 + roundDiv scaled (den * Nat.pow 2 binade))

/-- A number apart from its sign. -/
inductive Magnitude where
  | notANumber
  | infinite
  | finite (bits : Nat)
deriving DecidableEq

/-- Whether the sign bit is set. -/
def isNegative (x : Float) : Bool :=
  Nat.pow 2 63 ≤ x.toBits.toNat

def magnitude (x : Float) : Magnitude :=
  let bits := x.toBits.toNat % Nat.pow 2 63
  if bits < infinityBits then .finite bits
  else if bits = infinityBits then .infinite
  else .notANumber

/-- The non-negative number with this pattern. -/
def ofBits (bits : Nat) : Float :=
  Float.ofBits (UInt64.ofNat bits)

end Binary64
end GermanLox
