import ScriptHost.Binary64.Basic

/-! Rounding to nearest with ties to even: of a fraction to a natural number, and of a fraction to
the nearest binary number of 64 bits. -/
namespace ScriptHost

/-- `num / den` rounded to the nearest natural number, a half to the even neighbour. -/
def roundHalfEven (num den : Nat) : Nat :=
  let floor := num / den
  let twice := 2 * (num % den)
  if twice < den then floor
  else if den < twice then floor + 1
  else floor + floor % 2

theorem roundHalfEven_near (num : Nat) {den : Nat} (positive : 0 < den) :
    2 * num ≤ 2 * (den * roundHalfEven num den) + den ∧
      2 * (den * roundHalfEven num den) ≤ 2 * num + den := by
  have parts := Nat.div_add_mod num den
  have small := Nat.mod_lt num positive
  unfold roundHalfEven
  simp only
  split
  · omega
  · split
    · rw [Nat.mul_add]; omega
    · rcases Nat.mod_two_eq_zero_or_one (num / den) with parity | parity <;>
        rw [parity, Nat.mul_add] <;> omega

theorem roundHalfEven_even_of_tie {num den : Nat} (tie : 2 * (num % den) = den) :
    roundHalfEven num den % 2 = 0 := by
  simp only [roundHalfEven, tie, Nat.lt_irrefl, ite_false]
  omega

/-- A fraction of natural numbers with a power of two taken out: `num / den = value · 2 ^ q`. -/
def scaledBy (q : Int) (num den : Nat) : Nat × Nat :=
  (num <<< (-q).toNat, den <<< q.toNat)

namespace Binary64

/-- The least exponent not below -1074 at which the fraction takes at most 53 bits. -/
def exponentFor (num den : Nat) : Int :=
  let q := max (-1074) ((Nat.log2 num : Int) - Nat.log2 den - 53)
  let (n, d) := scaledBy q num den
  if n < d <<< 53 then q else q + 1

/-- The magnitude nearest to `num / den`, ties to the even significand. Whatever rounds beyond the
largest finite number is infinite. A significand that rounds up to `2 ^ 53` carries into the
exponent field, which is the next number. -/
def magnitudeOfRatio (num den : Nat) : Nat :=
  let q := exponentFor num den
  let (n, d) := scaledBy q num den
  min infinityBits (((q + 1074).toNat <<< 52) + roundHalfEven n d)

end Binary64
end ScriptHost
