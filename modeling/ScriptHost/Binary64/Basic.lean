/-! Binary floating-point numbers of 64 bits, held as their bit pattern: one sign bit, eleven
exponent bits, 52 fraction bits. A finite number is `± significand · 2 ^ exponent`. -/
namespace ScriptHost

structure Binary64 where
  bits : UInt64
  deriving DecidableEq, Repr, Inhabited

namespace Binary64

/-- The pattern of positive infinity, just above every finite magnitude. -/
def infinityBits : Nat := 0x7FF <<< 52

def signBit : Nat := 1 <<< 63

def negative (x : Binary64) : Bool := signBit ≤ x.bits.toNat

/-- The pattern without its sign; on finite numbers its order is the order of magnitudes. -/
def magnitude (x : Binary64) : Nat := x.bits.toNat % signBit

def ofMagnitude (negative : Bool) (magnitude : Nat) : Binary64 :=
  ⟨UInt64.ofNat (if negative then signBit + magnitude else magnitude)⟩

def isNaN (x : Binary64) : Bool := infinityBits < x.magnitude

def isInfinite (x : Binary64) : Bool := x.magnitude == infinityBits

/-- The exponent field; 0 marks zeros and subnormal numbers. -/
def field (x : Binary64) : Nat := x.magnitude >>> 52

def significand (x : Binary64) : Nat :=
  if x.field = 0 then x.magnitude else (1 <<< 52) + x.magnitude % (1 <<< 52)

def exponent (x : Binary64) : Int := max x.field 1 - 1075

/-- Equality of numbers: a NaN equals nothing, and the two zeros are equal. -/
def numEq (x y : Binary64) : Bool :=
  !x.isNaN && !y.isNaN && (x == y || (x.magnitude == 0 && y.magnitude == 0))

/-- The quiet NaN that reading the word `nan` gives. -/
def nanMagnitude : Nat := infinityBits + (1 <<< 51)

end Binary64
end ScriptHost
