import Mathlib.Algebra.Order.Field.Power
import Mathlib.Algebra.Ring.Parity
import Mathlib.Tactic.Linarith
import Mathlib.Tactic.NormNum
import Mathlib.Tactic.Positivity
import Mathlib.Tactic.Ring
import ScriptHost.Binary64.Fixed

/-! The exact values of binary numbers, and the two roundings between them and decimal fractions. A
number written with a fixed count of places and read back is, as far as those places go, the number
that was written: where the binary numbers lie closer together than the decimal ones, the number
read is too near to be written differently, and where they lie further apart, it is the same
number. -/
namespace ScriptHost

/-- The natural number nearest to a value; of two that are equally near, the even one. -/
def NearestEven (v : ℚ) (k : ℕ) : Prop := |v - k| ≤ 1 / 2 ∧ (|v - k| = 1 / 2 → Even k)

theorem NearestEven.of_lt {v : ℚ} {k : ℕ} (near : |v - k| < 1 / 2) : NearestEven v k :=
  ⟨near.le, fun tie => absurd tie near.ne⟩

theorem NearestEven.not_succ {v : ℚ} {k : ℕ} (first : NearestEven v k) :
    ¬ NearestEven v (k + 1) := by
  intro second
  have above := (abs_le.mp first.1).2
  have below := (abs_le.mp second.1).1
  push_cast at below
  have middle : v - k = 1 / 2 := by linarith
  have tie : |v - k| = 1 / 2 := by rw [middle]; norm_num
  have otherTie : |v - ((k + 1 : ℕ) : ℚ)| = 1 / 2 := by
    have distance : v - ((k + 1 : ℕ) : ℚ) = -(1 / 2) := by push_cast; linarith
    rw [distance]
    norm_num
  exact (Nat.even_add_one.mp (second.2 otherTie)) (first.2 tie)

theorem NearestEven.unique {v : ℚ} {k m : ℕ} (first : NearestEven v k) (second : NearestEven v m) :
    k = m := by
  have firstBounds := abs_le.mp first.1
  have secondBounds := abs_le.mp second.1
  have upper : (m : ℚ) < ((k + 2 : ℕ) : ℚ) := by push_cast; linarith
  have lower : (k : ℚ) < ((m + 2 : ℕ) : ℚ) := by push_cast; linarith
  rw [Nat.cast_lt] at upper lower
  rcases (by omega : k = m ∨ m = k + 1 ∨ k = m + 1) with same | rfl | rfl
  · exact same
  · exact absurd second first.not_succ
  · exact absurd first second.not_succ

/-- A result half a unit away from the fraction comes from a remainder of half the denominator. -/
theorem roundHalfEven_even_of_half (num : ℕ) {den : ℕ} (positive : 0 < den)
    (half : 2 * num = 2 * (den * roundHalfEven num den) + den ∨
      2 * (den * roundHalfEven num den) = 2 * num + den) :
    Even (roundHalfEven num den) := by
  rw [Nat.even_iff]
  apply roundHalfEven_even_of_tie
  have parts := Nat.div_add_mod num den
  have small := Nat.mod_lt num positive
  unfold roundHalfEven at half
  simp only at half
  split at half
  · omega
  · split at half
    · rw [Nat.mul_add] at half
      omega
    · omega

theorem roundHalfEven_nearestEven (num : ℕ) {den : ℕ} (positive : 0 < den) :
    NearestEven (num / den) (roundHalfEven num den) := by
  have den_pos : (0 : ℚ) < den := by exact_mod_cast positive
  obtain ⟨low, high⟩ := roundHalfEven_near num positive
  have even := roundHalfEven_even_of_half num positive
  generalize roundHalfEven num den = r at *
  have distance : |(num / den - r : ℚ)| = |(num - den * r : ℚ)| / den := by
    rw [← abs_of_pos den_pos, ← abs_div, abs_of_pos den_pos, sub_div, mul_div_cancel_left₀ _ den_pos.ne']
  have upper : (2 * num : ℚ) ≤ 2 * (den * r) + den := by exact_mod_cast low
  have lower : (2 * (den * r) : ℚ) ≤ 2 * num + den := by exact_mod_cast high
  rw [NearestEven, distance, div_le_iff₀ den_pos, div_eq_iff den_pos.ne']
  constructor
  · rw [abs_le]
    constructor <;> linarith
  · intro tie
    apply even
    rcases (abs_eq (by positivity)).mp tie with above | below
    · left
      have double : (2 * num : ℚ) = 2 * (den * r) + den := by linarith
      exact_mod_cast double
    · right
      have double : (2 * (den * r) : ℚ) = 2 * num + den := by linarith
      exact_mod_cast double

theorem roundHalfEven_eq {num den k : ℕ} (positive : 0 < den) {v : ℚ} (ratio : (num / den : ℚ) = v)
    (nearest : NearestEven v k) : roundHalfEven num den = k := by
  have rounded := roundHalfEven_nearestEven num positive
  rw [ratio] at rounded
  exact rounded.unique nearest

theorem NearestEven.natCast (k : ℕ) : NearestEven k k := by
  apply NearestEven.of_lt
  rw [sub_self, abs_zero]
  norm_num

/-- A natural number below a value is not above the number nearest to it. -/
theorem NearestEven.le {v : ℚ} {k m : ℕ} (nearest : NearestEven v k) (below : (m : ℚ) ≤ v) :
    m ≤ k := by
  have above := (abs_le.mp nearest.1).2
  have close : (m : ℚ) < ((k + 1 : ℕ) : ℚ) := by push_cast; linarith
  rw [Nat.cast_lt] at close
  omega

theorem NearestEven.ge {v : ℚ} {k m : ℕ} (nearest : NearestEven v k) (above : v ≤ m) : k ≤ m := by
  have below := (abs_le.mp nearest.1).1
  have close : (k : ℚ) < ((m + 1 : ℕ) : ℚ) := by push_cast; linarith
  rw [Nat.cast_lt] at close
  omega

theorem abs_sub_steps {step : ℚ} (positive : 0 < step) (v a : ℚ) :
    |v - a * step| = |v / step - a| * step := by
  rw [← abs_of_pos positive, ← abs_mul, abs_of_pos positive, sub_mul, div_mul_cancel₀ _ positive.ne']

/-- A step is at most one. A number of such steps that was rounded from a count of ones lies nearest to
that count. -/
theorem NearestEven.back {u r : ℕ} {step : ℚ} (positive : 0 < step) (fine : step ≤ 1)
    (nearest : NearestEven (u / step) r) : NearestEven (r * step) u := by
  rcases fine.lt_or_eq with finer | rfl
  · apply NearestEven.of_lt
    rw [abs_sub_comm, abs_sub_steps positive]
    calc |u / step - r| * step ≤ 1 / 2 * step := mul_le_mul_of_nonneg_right nearest.1 positive.le
      _ < 1 / 2 := by linarith
  · rw [div_one] at nearest
    rw [mul_one, nearest.unique (NearestEven.natCast u)]
    exact NearestEven.natCast u

/-- All other integers are at least half a unit away. -/
theorem NearestEven.half_le {v : ℚ} {k : ℕ} {m : ℤ} (nearest : NearestEven v k) (other : m ≠ k) :
    1 / 2 ≤ |v - m| := by
  have apart : (1 : ℚ) ≤ |(k : ℚ) - m| := by
    have distance : 1 ≤ |(k : ℤ) - m| := Int.one_le_abs (sub_ne_zero.mpr other.symm)
    exact_mod_cast distance
  have detour := abs_sub_le (k : ℚ) v m
  have near := nearest.1
  rw [abs_sub_comm v k] at near
  linarith

/-! In steps of any size: no whole number of steps is nearer to a value than the one that it was rounded
to, and no other is as near as an odd one. -/

theorem NearestEven.abs_sub_le_steps {v step : ℚ} {k : ℕ} (positive : 0 < step)
    (nearest : NearestEven (v / step) k) (m : ℤ) : |v - k * step| ≤ |v - m * step| := by
  by_cases same : m = k
  · rw [same, Int.cast_natCast]
  · rw [abs_sub_steps positive, abs_sub_steps positive]
    exact mul_le_mul_of_nonneg_right (nearest.1.trans (nearest.half_le same)) positive.le

theorem NearestEven.even_of_tied_steps {v step : ℚ} {k : ℕ} {m : ℤ} (positive : 0 < step)
    (nearest : NearestEven (v / step) k) (other : m ≠ k) (tie : |v - k * step| = |v - m * step|) :
    Even k := by
  rw [abs_sub_steps positive, abs_sub_steps positive] at tie
  have distances := mul_right_cancel₀ positive.ne' tie
  apply nearest.2
  exact le_antisymm nearest.1 (distances ▸ nearest.half_le other)

namespace Binary64

theorem bits_ofMagnitude {m : ℕ} (small : m < signBit) (negative : Bool) :
    (ofMagnitude negative m).bits.toNat = if negative then signBit + m else m := by
  have bound : signBit = 2 ^ 63 := rfl
  rw [ofMagnitude, UInt64.toNat_ofNat_of_lt']
  split <;> simp only [UInt64.size] <;> omega

theorem magnitude_ofMagnitude {m : ℕ} (small : m < signBit) (negative : Bool) :
    (ofMagnitude negative m).magnitude = m := by
  rw [magnitude, bits_ofMagnitude small]
  split
  · rw [Nat.add_mod_left, Nat.mod_eq_of_lt small]
  · exact Nat.mod_eq_of_lt small

theorem negative_ofMagnitude {m : ℕ} (small : m < signBit) (negative : Bool) :
    (ofMagnitude negative m).negative = negative := by
  rw [Binary64.negative, bits_ofMagnitude small]
  cases negative with
  | false => exact decide_eq_false (by simpa using small)
  | true => exact decide_eq_true (by simp)

theorem infinityBits_lt_signBit : infinityBits < signBit := by decide

/-- The exact magnitude of a finite number. -/
def absValue (x : Binary64) : ℚ := x.significand * 2 ^ x.exponent

theorem zpow_eq_div (b : ℚ) (e : ℤ) : b ^ e = b ^ e.toNat / b ^ (-e).toNat := by
  rcases Int.le_total 0 e with nonneg | nonpos
  · obtain ⟨n, rfl⟩ := Int.eq_ofNat_of_zero_le nonneg
    simp
  · obtain ⟨n, rfl⟩ := Int.exists_eq_neg_ofNat nonpos
    simp

theorem units_ratio (places : ℕ) (x : Binary64) :
    (((x.significand <<< x.exponent.toNat) * Nat.pow 10 places : ℕ) : ℚ) /
      ((1 <<< (-x.exponent).toNat : ℕ) : ℚ) = x.absValue * 10 ^ places := by
  rw [absValue, zpow_eq_div 2 x.exponent, Nat.shiftLeft_eq, Nat.shiftLeft_eq, Nat.pow_eq]
  push_cast
  ring

theorem one_shiftLeft_pos (n : ℕ) : 0 < 1 <<< n := by
  rw [Nat.one_shiftLeft]
  exact Nat.two_pow_pos n

theorem units_nearestEven (places : ℕ) (x : Binary64) :
    NearestEven (x.absValue * 10 ^ places) (x.units places) := by
  rw [← units_ratio]
  exact roundHalfEven_nearestEven _ (one_shiftLeft_pos _)

theorem units_eq {places k : ℕ} {x : Binary64} (nearest : NearestEven (x.absValue * 10 ^ places) k) :
    x.units places = k :=
  roundHalfEven_eq (one_shiftLeft_pos _) (units_ratio places x) nearest

theorem scaledBy_ratio (q : ℤ) (num den : ℕ) :
    ((scaledBy q num den).1 / (scaledBy q num den).2 : ℚ) = num / den / 2 ^ q := by
  simp only [scaledBy, zpow_eq_div 2 q, Nat.shiftLeft_eq]
  push_cast
  rw [div_div_eq_mul_div, div_mul_eq_mul_div, div_div]

theorem scaledBy_pos (q : ℤ) (num : ℕ) {den : ℕ} (positive : 0 < den) :
    0 < (scaledBy q num den).2 := by
  simp only [scaledBy, Nat.shiftLeft_eq]
  exact Nat.mul_pos positive (Nat.two_pow_pos _)

theorem scaledBy_lt_iff (q : ℤ) (num : ℕ) {den : ℕ} (positive : 0 < den) :
    (scaledBy q num den).1 < (scaledBy q num den).2 <<< 53 ↔ (num / den : ℚ) < 2 ^ 53 * 2 ^ q := by
  have den_pos : (0 : ℚ) < (scaledBy q num den).2 := by exact_mod_cast scaledBy_pos q num positive
  have power_pos : (0 : ℚ) < 2 ^ q := by positivity
  rw [← div_lt_iff₀ power_pos, ← scaledBy_ratio, div_lt_iff₀ den_pos, Nat.shiftLeft_eq,
    Nat.mul_comm, ← Nat.cast_lt (α := ℚ), Nat.cast_mul, Nat.cast_pow, Nat.cast_ofNat]

theorem log2_bounds {num den : ℕ} (num_pos : 0 < num) (den_pos : 0 < den) :
    (2 : ℚ) ^ ((Nat.log2 num : ℤ) - Nat.log2 den - 1) < num / den ∧
      (num / den : ℚ) < 2 ^ ((Nat.log2 num : ℤ) - Nat.log2 den + 1) := by
  have num_low := Nat.log2_self_le num_pos.ne'
  have num_high := Nat.lt_log2_self (n := num)
  have den_low := Nat.log2_self_le den_pos.ne'
  have den_high := Nat.lt_log2_self (n := den)
  generalize Nat.log2 num = a at *
  generalize Nat.log2 den = b at *
  have den_pos' : (0 : ℚ) < den := by exact_mod_cast den_pos
  constructor
  · have split : (2 : ℚ) ^ ((a : ℤ) - b - 1) = 2 ^ a / 2 ^ (b + 1) := by
      rw [sub_sub, zpow_sub₀ two_ne_zero]
      rfl
    rw [split, div_lt_div_iff₀ (by positivity) den_pos']
    exact_mod_cast Nat.mul_lt_mul_of_le_of_lt num_low den_high num_pos
  · have split : (2 : ℚ) ^ ((a : ℤ) - b + 1) = 2 ^ (a + 1) / 2 ^ b := by
      rw [sub_add_eq_add_sub, zpow_sub₀ two_ne_zero]
      rfl
    rw [split, div_lt_div_iff₀ den_pos' (by positivity)]
    exact_mod_cast Nat.mul_lt_mul_of_lt_of_le num_high den_low den_pos

/-- At the chosen exponent the fraction takes at most 53 bits, and exactly 53 unless the exponent is
the least one. -/
theorem exponentFor_bounds {num den : ℕ} (num_pos : 0 < num) (den_pos : 0 < den) :
    -1074 ≤ exponentFor num den ∧ (num / den : ℚ) < 2 ^ 53 * 2 ^ exponentFor num den ∧
      (exponentFor num den = -1074 ∨ 2 ^ 52 * 2 ^ exponentFor num den ≤ (num / den : ℚ)) := by
  obtain ⟨low, high⟩ := log2_bounds num_pos den_pos
  unfold exponentFor
  simp only [scaledBy_lt_iff _ num den_pos]
  generalize first : max (-1074) ((Nat.log2 num : ℤ) - Nat.log2 den - 53) = q
  have power (e : ℤ) (n : ℕ) : (2 : ℚ) ^ n * 2 ^ e = 2 ^ (e + n) := by
    rw [zpow_add₀ two_ne_zero, mul_comm]
    rfl
  simp only [power]
  split
  · next fits =>
    refine ⟨by omega, fits, ?_⟩
    rcases (by omega : q = -1074 ∨ (Nat.log2 num : ℤ) - Nat.log2 den - 1 = q + 52) with least | wide
    · exact .inl least
    · right
      rw [wide] at low
      exact low.le
  · next large =>
    rw [not_lt] at large
    have shifted : q + 1 + (52 : ℕ) = q + (53 : ℕ) := by omega
    refine ⟨by omega, ?_, .inr (by rw [shifted]; exact large)⟩
    apply high.trans_le
    exact zpow_le_zpow_right₀ one_le_two (by omega)

theorem field_eq (x : Binary64) : x.field = x.magnitude / 2 ^ 52 :=
  Nat.shiftRight_eq_div_pow ..

theorem significand_eq (x : Binary64) :
    x.significand = if x.magnitude / 2 ^ 52 = 0 then x.magnitude
      else 2 ^ 52 + x.magnitude % 2 ^ 52 := by
  rw [significand, field_eq, Nat.one_shiftLeft]

/-- The value of a pattern, read as a count of exponent steps and a significand behind it. A
significand of 2^53 has carried into the exponent field. -/
theorem absValue_of_parts {x : Binary64} {k r : ℕ} (parts : x.magnitude = k * 2 ^ 52 + r)
    (small : r ≤ 2 ^ 53) (normal : k = 0 ∨ 2 ^ 52 ≤ r) :
    x.absValue = r * 2 ^ ((k : ℤ) - 1074) := by
  rw [absValue, exponent, significand_eq, field_eq, parts]
  rcases (by omega : r < 2 ^ 52 ∨ (2 ^ 52 ≤ r ∧ r < 2 ^ 53) ∨ r = 2 ^ 53) with subnormal | full | carried
  · obtain rfl : k = 0 := by omega
    have field : (0 * 2 ^ 52 + r) / 2 ^ 52 = 0 := by omega
    rw [field, if_pos rfl, Nat.zero_mul, Nat.zero_add]
    norm_num
  · have field : (k * 2 ^ 52 + r) / 2 ^ 52 = k + 1 := by omega
    have fraction : 2 ^ 52 + (k * 2 ^ 52 + r) % 2 ^ 52 = r := by omega
    have steps : ((max (k + 1) 1 : ℕ) : ℤ) - 1075 = k - 1074 := by omega
    rw [field, if_neg (Nat.succ_ne_zero k), fraction, steps]
  · have field : (k * 2 ^ 52 + r) / 2 ^ 52 = k + 2 := by omega
    have fraction : 2 ^ 52 + (k * 2 ^ 52 + r) % 2 ^ 52 = 2 ^ 52 := by omega
    have steps : ((max (k + 2) 1 : ℕ) : ℤ) - 1075 = k - 1074 + 1 := by omega
    rw [field, if_neg (Nat.succ_ne_zero _), fraction, steps, zpow_add_one₀ two_ne_zero, carried]
    push_cast
    ring

theorem magnitudeOfRatio_parts {num den : ℕ} (num_pos : 0 < num) (den_pos : 0 < den) :
    ∃ k r : ℕ, magnitudeOfRatio num den = min infinityBits (k * 2 ^ 52 + r) ∧
      NearestEven (num / den / 2 ^ ((k : ℤ) - 1074)) r ∧ r ≤ 2 ^ 53 ∧
      (k = 0 ∨ 2 ^ 52 ≤ r ∧ 2 ^ 52 * 2 ^ ((k : ℤ) - 1074) ≤ (num / den : ℚ)) := by
  obtain ⟨least, below, above⟩ := exponentFor_bounds num_pos den_pos
  obtain ⟨k, steps⟩ : ∃ k : ℕ, exponentFor num den = k - 1074 :=
    ⟨(exponentFor num den + 1074).toNat, by omega⟩
  rw [steps] at below above
  have power_pos : (0 : ℚ) < 2 ^ ((k : ℤ) - 1074) := by positivity
  have rounded := roundHalfEven_nearestEven (scaledBy (k - 1074) num den).1
    (scaledBy_pos (k - 1074) num den_pos)
  rw [scaledBy_ratio] at rounded
  refine ⟨k, _, ?_, rounded, ?_, ?_⟩
  · have count : ((k : ℤ) - 1074 + 1074).toNat = k := by omega
    rw [magnitudeOfRatio, steps, count, Nat.shiftLeft_eq]
  · apply rounded.ge
    rw [div_le_iff₀ power_pos]
    exact_mod_cast below.le
  · rcases above with first | normal
    · exact .inl (by omega)
    · refine .inr ⟨rounded.le ?_, normal⟩
      rw [le_div_iff₀ power_pos]
      exact_mod_cast normal

theorem infinityBits_eq : infinityBits = 2047 * 2 ^ 52 := rfl

theorem significand_lt (x : Binary64) : x.significand < 2 ^ 53 := by
  rw [significand_eq]
  split <;> omega

theorem exponent_ge (x : Binary64) : -1074 ≤ x.exponent := by
  rw [exponent]
  omega

theorem exponent_le {x : Binary64} (finite : x.magnitude < infinityBits) : x.exponent ≤ 971 := by
  rw [infinityBits_eq] at finite
  rw [exponent, field_eq]
  omega

/-- A number with steps smaller than `2 ^ q` has 53 bits of them. -/
theorem absValue_le_of_exponent_lt {x : Binary64} {q : ℤ} (less : x.exponent < q) :
    x.absValue ≤ (2 ^ 53 - 1) * (2 ^ q / 2) := by
  have significand : (x.significand : ℚ) ≤ 2 ^ 53 - 1 := by
    have below := x.significand_lt
    rw [le_sub_iff_add_le]
    exact_mod_cast below
  have power : (2 : ℚ) ^ x.exponent * 2 ≤ 2 ^ q := by
    rw [← zpow_add_one₀ two_ne_zero]
    exact zpow_le_zpow_right₀ one_le_two (by omega)
  have exponent_pos : (0 : ℚ) ≤ 2 ^ x.exponent := by positivity
  rw [absValue]
  calc (x.significand : ℚ) * 2 ^ x.exponent ≤ (2 ^ 53 - 1) * 2 ^ x.exponent :=
        mul_le_mul_of_nonneg_right significand exponent_pos
    _ ≤ (2 ^ 53 - 1) * (2 ^ q / 2) := by
        apply mul_le_mul_of_nonneg_left _ (by norm_num)
        linarith

/-- A binary number that rounds to a decimal fraction with steps smaller than those of the binary
numbers near the fraction is a whole number of the latter. -/
theorem exponent_ge_of_coarse {x : Binary64} {places u k : ℕ}
    (rounded : NearestEven (x.absValue * 10 ^ places) u)
    (coarse : (1 : ℚ) < 2 ^ ((k : ℤ) - 1074) * 10 ^ places)
    (normal : k = 0 ∨ 2 ^ 52 * 2 ^ ((k : ℤ) - 1074) ≤ (u / 10 ^ places : ℚ)) :
    (k : ℤ) - 1074 ≤ x.exponent := by
  rcases normal with rfl | normal
  · exact x.exponent_ge
  · by_contra less
    have value := absValue_le_of_exponent_lt (not_le.mp less)
    have power_pos : (0 : ℚ) < 10 ^ places := by positivity
    generalize (2 : ℚ) ^ ((k : ℤ) - 1074) = step at coarse normal value
    have scaled := mul_le_mul_of_nonneg_right value power_pos.le
    rw [le_div_iff₀ power_pos, mul_assoc] at normal
    have near := (abs_le.mp rounded.1).1
    have expand : (2 ^ 53 - 1) * (step / 2) * 10 ^ places =
        2 ^ 52 * (step * 10 ^ places) - step * 10 ^ places / 2 := by ring
    linarith

/-- A finite number is a whole number of steps of any size not above its own. -/
theorem absValue_eq_steps {x : Binary64} {q : ℤ} (above : q ≤ x.exponent) :
    x.absValue = (x.significand * 2 ^ (x.exponent - q).toNat : ℕ) * 2 ^ q := by
  obtain ⟨n, steps⟩ := Int.eq_ofNat_of_zero_le (Int.sub_nonneg.mpr above)
  have split : x.exponent = (n : ℤ) + q := by omega
  rw [steps, Int.toNat_natCast, absValue, split, zpow_add₀ two_ne_zero,
    zpow_natCast]
  push_cast
  ring

/-- Where the binary numbers lie no further apart than the decimal fractions, the one nearest to a
fraction is rounded to that fraction. -/
theorem units_of_fine {y : Binary64} {places u k r : ℕ} (parts : y.magnitude = k * 2 ^ 52 + r)
    (small : r ≤ 2 ^ 53) (normal : k = 0 ∨ 2 ^ 52 ≤ r)
    (nearest : NearestEven (u / (2 ^ ((k : ℤ) - 1074) * 10 ^ places)) r)
    (fine : (2 : ℚ) ^ ((k : ℤ) - 1074) * 10 ^ places ≤ 1) : y.units places = u := by
  have step_pos : (0 : ℚ) < 2 ^ ((k : ℤ) - 1074) * 10 ^ places := by positivity
  apply units_eq
  rw [absValue_of_parts parts small normal, mul_assoc]
  exact nearest.back step_pos fine

theorem count_le_of_fine {places k : ℕ} (fine : (2 : ℚ) ^ ((k : ℤ) - 1074) * 10 ^ places ≤ 1) :
    k ≤ 1074 := by
  by_contra more
  have one_lt : (1 : ℚ) < 2 ^ ((k : ℤ) - 1074) := one_lt_zpow₀ one_lt_two (by omega)
  have one_le : (1 : ℚ) ≤ 10 ^ places := one_le_pow₀ (by norm_num)
  linarith [mul_lt_mul_of_pos_right one_lt (zero_lt_one.trans_le one_le)]

/-- Where the binary numbers lie further apart than the decimal fractions, the one nearest to a
fraction is the one that the fraction was rounded from. -/
theorem steps_of_coarse {x : Binary64} {places u k r : ℕ}
    (rounded : NearestEven (x.absValue * 10 ^ places) u)
    (nearest : NearestEven (u / (2 ^ ((k : ℤ) - 1074) * 10 ^ places)) r)
    (coarse : (1 : ℚ) < 2 ^ ((k : ℤ) - 1074) * 10 ^ places) (above : (k : ℤ) - 1074 ≤ x.exponent) :
    r = x.significand * 2 ^ (x.exponent - (k - 1074)).toNat := by
  have step_pos : (0 : ℚ) < 2 ^ ((k : ℤ) - 1074) * 10 ^ places := by positivity
  rw [absValue_eq_steps above, mul_assoc] at rounded
  -- Seen from the fraction, one decimal place is the small step.
  have inverse := NearestEven.back (inv_pos.mpr step_pos) (inv_le_one_of_one_le₀ coarse.le)
    (by rw [div_inv_eq_mul]; exact rounded)
  rw [← div_eq_mul_inv] at inverse
  exact nearest.unique inverse

/-- A finite number rounded to some decimal places, and rounded back to the binary number nearest to
that, still rounds to the same places. -/
theorem units_of_magnitudeOfRatio {x y : Binary64} {places : ℕ} (finite : x.magnitude < infinityBits)
    (nonzero : 0 < x.units places)
    (read : y.magnitude = magnitudeOfRatio (x.units places) (Nat.pow 10 places)) :
    y.magnitude < infinityBits ∧ y.units places = x.units places := by
  obtain ⟨k, r, parts, nearest, small, normal⟩ :=
    magnitudeOfRatio_parts nonzero (Nat.pow_pos (n := places) (by decide : 0 < 10))
  have rounded := units_nearestEven places x
  generalize x.units places = u at *
  rw [Nat.pow_eq] at read
  rw [Nat.cast_pow, Nat.cast_ofNat] at nearest normal
  rw [div_div, mul_comm] at nearest
  have normalParts : k = 0 ∨ 2 ^ 52 ≤ r := normal.imp_right And.left
  have limit := exponent_le finite
  rw [infinityBits_eq] at *
  rcases le_or_gt ((2 : ℚ) ^ ((k : ℤ) - 1074) * 10 ^ places) 1 with fine | coarse
  · have count := count_le_of_fine fine
    have magnitude : y.magnitude = k * 2 ^ 52 + r := by omega
    exact ⟨by omega, units_of_fine magnitude small normalParts nearest fine⟩
  · have above := exponent_ge_of_coarse rounded coarse (normal.imp_right And.right)
    have same := steps_of_coarse rounded nearest coarse above
    have bound := x.significand_lt
    have below : k * 2 ^ 52 + r < 2047 * 2 ^ 52 := by
      by_contra large
      -- At the largest exponent the significand is that of `x`, which is too small to carry.
      have exact : x.exponent - (k - 1074) = 0 := by omega
      rw [exact, Int.toNat_zero, Nat.pow_zero, Nat.mul_one] at same
      omega
    have magnitude : y.magnitude = k * 2 ^ 52 + r := by omega
    refine ⟨by omega, units_eq ?_⟩
    rw [absValue_of_parts magnitude small normalParts, same, ← absValue_eq_steps above]
    exact rounded

end Binary64
end ScriptHost
