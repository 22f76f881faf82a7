import ScriptHost.Binary64.Rounding
import ScriptHost.Text.Decimal

/-! Numerals for floating-point numbers: an optional sign, then `inf`, `infinity` or `nan` in any
case, or decimal digits with an optional point and an optional exponent. -/
namespace ScriptHost

/-- The decimal number `digits · 10 ^ exponent`. -/
structure Scientific where
  digits : Nat
  exponent : Int
  deriving DecidableEq, Repr

namespace Scientific

/-- The exponent part of a numeral; an absent one counts as zero. -/
def exponentPart? : List Char → Option Int
  | [] => some 0
  | c :: rest => if c = 'e' ∨ c = 'E' then Decimal.integer? rest else none

/-- The digits behind a point, and what follows them. -/
def fractionPart : List Char → List Char × List Char
  | '.' :: rest => rest.span Char.isDigit
  | rest => ([], rest)

/-- An unsigned numeral with at least one digit before or behind the point. -/
def parse? (text : List Char) : Option Scientific :=
  let (whole, rest) := text.span Char.isDigit
  let (fraction, rest) := fractionPart rest
  if whole ++ fraction = [] then none
  else (exponentPart? rest).map fun e =>
    ⟨Nat.ofDigitChars 10 (whole ++ fraction) 0, e - fraction.length⟩

/-- The nearest binary magnitude. The first two cases keep the powers of ten small: ten times
itself 310 times is beyond every finite number, and a number below `2 ^ -1076` rounds to zero. -/
def magnitude (s : Scientific) : Nat :=
  if s.digits = 0 then 0
  else if 310 ≤ s.exponent then Binary64.infinityBits
  else if (Nat.log2 s.digits : Int) + 1 + 3 * s.exponent ≤ -1076 then 0
  else Binary64.magnitudeOfRatio (s.digits * Nat.pow 10 s.exponent.toNat) (Nat.pow 10 (-s.exponent).toNat)

end Scientific

namespace Binary64

def magnitude? (text : List Char) : Option Nat :=
  let word := text.map Char.toLower
  if word = "inf".toList ∨ word = "infinity".toList then some infinityBits
  else if word = "nan".toList then some nanMagnitude
  else (Scientific.parse? text).map Scientific.magnitude

def parse? (text : List Char) : Option Binary64 :=
  let (negative, numeral) := Decimal.splitSign text
  (magnitude? numeral).map (ofMagnitude negative)

end Binary64
end ScriptHost
