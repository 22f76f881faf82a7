import ScriptHost.Binary64.Rounding

/-! Numbers written with a fixed count of decimal places, rounded from the exact binary value. -/
namespace ScriptHost.Binary64

/-- The magnitude of a finite number in units of `10 ^ -places`, ties to even. -/
def units (places : Nat) (x : Binary64) : Nat :=
  roundHalfEven ((x.significand <<< x.exponent.toNat) * Nat.pow 10 places) (1 <<< (-x.exponent).toNat)

/-- A natural number in at least `width` digits, filled with zeros on the left. -/
def paddedDigits (width n : Nat) : List Char :=
  let digits := Nat.toDigits 10 n
  List.replicate (width - digits.length) '0' ++ digits

def unsignedFixed (places units : Nat) : List Char :=
  let one := Nat.pow 10 places
  Nat.toDigits 10 (units / one) ++ '.' :: paddedDigits places (units % one)

/-- The sign is that of the bit pattern, on zeros and on numbers that round to zero too. -/
def toFixed (places : Nat) (x : Binary64) : List Char :=
  if x.isNaN then "nan".toList
  else
    let unsigned := if x.isInfinite then "inf".toList else unsignedFixed places (x.units places)
    if x.negative then '-' :: unsigned else unsigned

def format (x : Binary64) : String := String.ofList (x.toFixed 6)

end ScriptHost.Binary64
