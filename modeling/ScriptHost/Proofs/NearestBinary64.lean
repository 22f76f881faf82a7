import ScriptHost.Binary64.Numeral
import ScriptHost.Proofs.Binary64Fields

/-! Rounding to the nearest of all binary numbers, ties to even, with its two ends: what is nearer to
2 ^ 1024 than to the largest finite number becomes infinite, and what is not nearer to the smallest
number than to zero becomes zero. -/
namespace ScriptHost

/-- A value of an odd number and a half is rounded up, as all above it are. -/
theorem NearestEven.lt_iff {v : ℚ} {k n : ℕ} (nearest : NearestEven v k) (odd : ¬ Even n) :
    n < k ↔ n + 1 / 2 ≤ v := by
  have bounds := abs_le.mp nearest.1
  constructor
  · intro less
    have next : ((n + 1 : ℕ) : ℚ) ≤ k := by exact_mod_cast less
    push_cast at next
    linarith
  · intro above
    by_contra notLess
    have least : (k : ℚ) ≤ n := by exact_mod_cast Nat.le_of_not_lt notLess
    have same : k = n := by
      have equal : (k : ℚ) = n := by linarith
      exact_mod_cast equal
    have tie : |v - k| = 1 / 2 := by
      rw [abs_of_nonneg (by linarith)]
      linarith
    exact odd (same ▸ nearest.2 tie)

/-- The exact value of a decimal. -/
def Scientific.value (s : Scientific) : ℚ := s.digits * 10 ^ s.exponent

namespace Binary64

/-- A value rounded to a significand `r`, in units of the `k`-th exponent. Above the first exponent the
significand has all its bits. -/
structure RoundedParts (w : ℚ) (k r : ℕ) : Prop where
  nearest : NearestEven (w / 2 ^ ((k : ℤ) - 1074)) r
  small : r ≤ 2 ^ 53
  normal : k = 0 ∨ 2 ^ 52 ≤ r ∧ 2 ^ 52 * 2 ^ ((k : ℤ) - 1074) ≤ w

/-- The threshold lies half a unit above the largest finite number. -/
theorem overflow_eq :
    (2 : ℚ) ^ 1024 - 2 ^ 970 = ((2 ^ 53 - 1 : ℕ) + 1 / 2) * 2 ^ ((2045 : ℕ) - 1074 : ℤ) := by
  have top : (2 : ℚ) ^ 1024 = 2 ^ 54 * 2 ^ 970 := by rw [← pow_add]
  have step : (2 : ℚ) ^ ((2045 : ℕ) - 1074 : ℤ) = 2 * 2 ^ 970 := by
    rw [← pow_succ']
    exact zpow_natCast 2 971
  rw [top, step]
  generalize (2 : ℚ) ^ 970 = unit
  push_cast
  ring

variable {w : ℚ} {k r : ℕ}

theorem RoundedParts.le (parts : RoundedParts w k r) : w ≤ (r + 1 / 2) * 2 ^ ((k : ℤ) - 1074) := by
  have power_pos : (0 : ℚ) < 2 ^ ((k : ℤ) - 1074) := by positivity
  rw [← div_le_iff₀ power_pos]
  linarith [(abs_le.mp parts.nearest.1).2]

/-- All numbers from 2 ^ 1024 - 2 ^ 970 on are rounded beyond the finite ones. -/
theorem RoundedParts.infinite_iff (parts : RoundedParts w k r) :
    infinityBits ≤ k * 2 ^ 52 + r ↔ 2 ^ 1024 - 2 ^ 970 ≤ w := by
  have small := parts.small
  have below := parts.le
  have nearest := parts.nearest
  have normal := parts.normal
  rw [infinityBits_eq, overflow_eq]
  have last_pos : (0 : ℚ) < 2 ^ ((2045 : ℕ) - 1074 : ℤ) := by positivity
  rcases Nat.lt_trichotomy k 2045 with less | rfl | more
  · -- Even a significand that carries stays below the last exponent.
    have step : (2 : ℚ) ^ ((k : ℤ) - 1074) * 2 ≤ 2 ^ ((2045 : ℕ) - 1074 : ℤ) := by
      rw [← zpow_add_one₀ two_ne_zero]
      exact zpow_le_zpow_right₀ one_le_two (by omega)
    have significand : (r : ℚ) ≤ 2 ^ 53 := by exact_mod_cast small
    have power_pos : (0 : ℚ) < 2 ^ ((k : ℤ) - 1074) := by positivity
    have carried := mul_le_mul_of_nonneg_right significand power_pos.le
    apply iff_of_false (by omega)
    generalize (2 : ℚ) ^ ((2045 : ℕ) - 1074 : ℤ) = last at *
    generalize (2 : ℚ) ^ ((k : ℤ) - 1074) = unit at *
    rw [not_le]
    push_cast
    linarith
  · -- At the last exponent it is the carry that decides.
    rw [← le_div_iff₀ last_pos, ← nearest.lt_iff (by decide)]
    omega
  · obtain ⟨significand, above⟩ := normal.resolve_left (by omega)
    have step : (2 : ℚ) * 2 ^ ((2045 : ℕ) - 1074 : ℤ) ≤ 2 ^ ((k : ℤ) - 1074) := by
      rw [← zpow_one_add₀ two_ne_zero]
      exact zpow_le_zpow_right₀ one_le_two (by omega)
    apply iff_of_true (by omega)
    generalize (2 : ℚ) ^ ((2045 : ℕ) - 1074 : ℤ) = last at *
    generalize (2 : ℚ) ^ ((k : ℤ) - 1074) = unit at *
    push_cast
    linarith

/-- A value of at most half the smallest unit is rounded to zero. -/
theorem RoundedParts.of_tiny (nonneg : 0 ≤ w) (tiny : w ≤ 2 ^ (-1075 : ℤ)) : RoundedParts w 0 0 where
  nearest := by
    have half : (2 : ℚ) ^ (-1075 : ℤ) * 2 = 2 ^ (-1074 : ℤ) := (zpow_add_one₀ two_ne_zero _).symm
    have unit_pos : (0 : ℚ) < 2 ^ (-1074 : ℤ) := by positivity
    have near : w / 2 ^ (-1074 : ℤ) ≤ 1 / 2 := by
      rw [div_le_iff₀ unit_pos]
      linarith
    rw [NearestEven, Nat.cast_zero, Nat.cast_zero, zero_sub, sub_zero,
      abs_of_nonneg (div_nonneg nonneg unit_pos.le)]
    exact ⟨near, fun _ => Even.zero⟩
  small := Nat.zero_le _
  normal := .inl rfl

/-- And to nothing else. -/
theorem RoundedParts.eq_zero (parts : RoundedParts w k r) (nonneg : 0 ≤ w)
    (tiny : w ≤ 2 ^ (-1075 : ℤ)) : k = 0 ∧ r = 0 := by
  have first : k = 0 := by
    by_contra later
    have above := (parts.normal.resolve_left later).2
    have least : (2 : ℚ) ^ (-1075 : ℤ) < 2 ^ ((k : ℤ) - 1074) :=
      zpow_lt_zpow_right₀ one_lt_two (by omega)
    have half_pos : (0 : ℚ) < 2 ^ (-1075 : ℤ) := by positivity
    linarith
  subst first
  exact ⟨rfl, parts.nearest.unique (RoundedParts.of_tiny nonneg tiny).nearest⟩

/-- Every finite number is a whole number of units, or below all values whose significand has its
leading one at that unit. -/
theorem absValue_cases (z : Binary64) (k : ℕ) :
    (∃ n : ℕ, z.absValue = n * 2 ^ ((k : ℤ) - 1074)) ∨
      (k ≠ 0 ∧ z.absValue < 2 ^ 52 * 2 ^ ((k : ℤ) - 1074)) := by
  rcases le_or_gt ((k : ℤ) - 1074) z.exponent with above | below
  · exact .inl ⟨_, absValue_eq_steps above⟩
  · refine .inr ⟨?_, ?_⟩
    · rintro rfl
      exact absurd z.exponent_ge (by omega)
    · have bound := absValue_le_of_exponent_lt below
      have unit_pos : (0 : ℚ) < 2 ^ ((k : ℤ) - 1074) := by positivity
      linarith

/-- A number below the last leading one is further away than the rounded one. -/
theorem RoundedParts.abs_sub_lt (parts : RoundedParts w k r) (later : k ≠ 0) {a : ℚ}
    (below : a < 2 ^ 52 * 2 ^ ((k : ℤ) - 1074)) : |w - r * 2 ^ ((k : ℤ) - 1074)| < |w - a| := by
  have unit_pos : (0 : ℚ) < 2 ^ ((k : ℤ) - 1074) := by positivity
  have above := (parts.normal.resolve_left later).2
  have near := parts.nearest.abs_sub_le_steps unit_pos (2 ^ 52)
  rw [Int.cast_pow, Int.cast_ofNat] at near
  rw [abs_of_nonneg (a := w - 2 ^ 52 * 2 ^ ((k : ℤ) - 1074)) (by linarith)] at near
  rw [abs_of_pos (a := w - a) (by linarith)]
  linarith

/-- No finite number is nearer than the rounded one. -/
theorem RoundedParts.abs_sub_le (parts : RoundedParts w k r) (z : Binary64) :
    |w - r * 2 ^ ((k : ℤ) - 1074)| ≤ |w - z.absValue| := by
  rcases z.absValue_cases k with ⟨n, steps⟩ | ⟨later, below⟩
  · rw [steps]
    exact parts.nearest.abs_sub_le_steps (by positivity) n
  · exact (parts.abs_sub_lt later below).le

/-- Where another finite number is as near as the rounded one, the latter is even. -/
theorem RoundedParts.even_of_tied (parts : RoundedParts w k r) {z : Binary64}
    (other : z.absValue ≠ r * 2 ^ ((k : ℤ) - 1074))
    (tie : |w - r * 2 ^ ((k : ℤ) - 1074)| = |w - z.absValue|) : Even r := by
  rcases z.absValue_cases k with ⟨n, steps⟩ | ⟨later, below⟩
  · rw [steps] at other tie
    apply parts.nearest.even_of_tied_steps (m := n) (by positivity) _ tie
    rintro same
    exact other (by rw [Nat.cast_inj.mp same])
  · exact absurd tie (parts.abs_sub_lt later below).ne

/-- A value rounded to the nearest binary number. The sign is kept, also where the value is zero or is
rounded to it. The first threshold is halfway between the largest finite number and 2 ^ 1024, the
last is half the smallest number. -/
structure RoundedFrom (negative : Bool) (v : ℚ) (y : Binary64) : Prop where
  sign : y.signField = if negative then 1 else 0
  overflow : 2 ^ 1024 - 2 ^ 970 ≤ |v| → y.IsInfinite
  finite : |v| < 2 ^ 1024 - 2 ^ 970 → y.IsFinite
  underflow : |v| ≤ 2 ^ (-1075 : ℤ) → y.IsZero
  nearest : y.IsFinite → ∀ z : Binary64, z.IsFinite → |v - y.value| ≤ |v - z.value|
  even : y.IsFinite → ∀ z : Binary64, z.IsFinite → z.value ≠ y.value →
    |v - y.value| = |v - z.value| → Even y.fractionField

/-- Nothing that lies between two equally near numbers is further away than they are. -/
theorem abs_sub_lt_of_between {v a b c : ℚ} (above : a < c) (below : c < b)
    (tie : |v - a| = |v - b|) : |v - c| < |v - a| := by
  rcases abs_eq_abs.mp tie with same | middle
  · linarith
  · rw [abs_of_pos (a := v - a) (by linarith), abs_lt]
    constructor <;> linarith

theorem abs_sub_value (v : ℚ) (x : Binary64) :
    |v - x.value| = |(-1) ^ x.signField * v - x.absValue| := by
  rw [abs_signed_sub, value_eq]

/-- A value is rounded to one number only: of two that are equally near, one is odd, or another one lies
between them. -/
theorem RoundedFrom.unique {negative : Bool} {v : ℚ} {y z : Binary64} (first : RoundedFrom negative v y)
    (second : RoundedFrom negative v z) : y = z := by
  have sign : y.signField = z.signField := first.sign.trans second.sign.symm
  apply eq_of_fields sign
  rcases le_or_gt (2 ^ 1024 - 2 ^ 970) |v| with large | less
  · rw [y.isInfinite_iff.mp (first.overflow large), z.isInfinite_iff.mp (second.overflow large)]
  have finite := first.finite less
  have finite' := second.finite less
  by_contra unequal
  wlog below : y.magnitude < z.magnitude generalizing y z
  · exact this second first sign.symm finite' finite (Ne.symm unequal)
      (lt_of_le_of_ne (not_lt.mp below) (Ne.symm unequal))
  have tie := le_antisymm (first.nearest finite z finite') (second.nearest finite' y finite)
  have apart : z.value ≠ y.value := by
    intro same
    apply unequal
    rw [← absValue_inj, ← abs_value, ← abs_value, same]
  have even := Nat.even_iff.mp (first.even finite z finite' apart tie)
  have even' := Nat.even_iff.mp (second.even finite' y finite apart.symm tie.symm)
  have fields := y.magnitude_eq_fields
  have fields' := z.magnitude_eq_fields
  have bound := z.isFinite_iff.mp finite'
  have small : y.magnitude + 1 < signBit := by
    have limit := infinityBits_lt_signBit
    omega
  have magnitude := magnitude_ofMagnitude small negative
  have nextSign : (ofMagnitude negative (y.magnitude + 1)).signField = y.signField := by
    rw [signField_eq, negative_ofMagnitude small, first.sign]
  have nextFinite : (ofMagnitude negative (y.magnitude + 1)).IsFinite := by
    rw [isFinite_iff, magnitude]
    omega
  have near := first.nearest finite _ nextFinite
  rw [abs_sub_value, abs_sub_value, nextSign] at near
  rw [abs_sub_value, abs_sub_value, ← sign] at tie
  exact absurd near (not_le.mpr (abs_sub_lt_of_between (absValue_lt_iff.mpr (by rw [magnitude]; omega))
    (absValue_lt_iff.mpr (by rw [magnitude]; omega)) tie))

theorem abs_of_signed (nonneg : 0 ≤ w) {v : ℚ} {sign : ℕ} (signed : v = (-1) ^ sign * w) : |v| = w := by
  rw [signed, abs_mul, abs_neg_one_pow, one_mul, abs_of_nonneg nonneg]

/-- With its own sign and its exact magnitude, a value is rounded as its magnitude is. -/
theorem RoundedParts.roundedFrom (parts : RoundedParts w k r) (nonneg : 0 ≤ w) {y : Binary64}
    (magnitude : y.magnitude = min infinityBits (k * 2 ^ 52 + r)) {negative : Bool}
    (sign : y.signField = if negative then 1 else 0) {v : ℚ} (signed : v = (-1) ^ y.signField * w) :
    RoundedFrom negative v y := by
  have size := abs_of_signed nonneg signed
  have written (finite : y.IsFinite) : y.absValue = r * 2 ^ ((k : ℤ) - 1074) := by
    rw [isFinite_iff] at finite
    exact absValue_of_parts (by omega) parts.small (parts.normal.imp_right And.left)
  have distance (finite : y.IsFinite) : |v - y.value| = |w - r * 2 ^ ((k : ℤ) - 1074)| := by
    rw [signed, value_eq, ← mul_sub, abs_mul, abs_neg_one_pow, one_mul, written finite]
  have other (z : Binary64) : |w - z.absValue| ≤ |v - z.value| := by
    rw [← size, ← abs_value]
    exact abs_abs_sub_abs_le v z.value
  have zero (tiny : w ≤ 2 ^ (-1075 : ℤ)) : y.IsZero := by
    obtain ⟨rfl, rfl⟩ := parts.eq_zero nonneg tiny
    rw [isZero_iff, magnitude]
    decide
  refine ⟨sign, fun large => ?_, fun less => ?_, fun tiny => zero (size ▸ tiny),
    fun finite z _ => ?_, fun finite z _ unequal tie => ?_⟩
  · rw [isInfinite_iff, magnitude, min_eq_left (parts.infinite_iff.mpr (size ▸ large))]
  · rw [isFinite_iff, magnitude, min_lt_iff]
    exact .inr (not_le.mp fun large => absurd (parts.infinite_iff.mp large) (not_le.mpr (size ▸ less)))
  · rw [distance finite]
    exact (parts.abs_sub_le z).trans (other z)
  · have apart : z.absValue ≠ r * 2 ^ ((k : ℤ) - 1074) := by
      -- The number with the other sign is as near only to zero, and then it is zero itself.
      rw [← written finite, ← abs_value, ← abs_value]
      intro same
      have opposite := (abs_eq_abs.mp same).resolve_left unequal
      have nonzero : y.value ≠ 0 := fun zero => unequal (by rw [opposite, zero, neg_zero])
      rw [opposite, sub_neg_eq_add] at tie
      rcases abs_eq_abs.mp tie with equal | negated
      · exact nonzero (by linarith)
      · have nothing : w = 0 := by rw [← size, abs_eq_zero]; linarith
        have significand := (parts.eq_zero nonneg (by rw [nothing]; positivity)).2
        apply nonzero
        rw [← abs_eq_zero, abs_value, written finite, significand, Nat.cast_zero, zero_mul]
    have near : |w - r * 2 ^ ((k : ℤ) - 1074)| = |w - z.absValue| :=
      le_antisymm (parts.abs_sub_le z) ((other z).trans_eq (tie.symm.trans (distance finite)))
    have even := parts.even_of_tied apart near
    have fields := y.magnitude_eq_fields
    rw [isFinite_iff] at finite
    rw [Nat.even_iff] at even ⊢
    omega

theorem RoundedFrom.of_large (large : 2 ^ 1024 - 2 ^ 970 ≤ w) {y : Binary64}
    (infinite : y.IsInfinite) {negative : Bool} (sign : y.signField = if negative then 1 else 0)
    {v : ℚ} (signed : v = (-1) ^ y.signField * w) : RoundedFrom negative v y := by
  have half : (2 : ℚ) ^ (-1075 : ℤ) < 1 := zpow_lt_one_of_neg₀ one_lt_two (by decide)
  have beyond : (1 : ℚ) ≤ 2 ^ 1024 - 2 ^ 970 := by
    have natural : 1 + 2 ^ 970 ≤ 2 ^ 1024 := by decide +kernel
    rw [le_sub_iff_add_le]
    exact_mod_cast natural
  have one_le := beyond.trans large
  have size := abs_of_signed (zero_le_one.trans one_le) signed
  have notFinite : ¬ y.IsFinite := fun finite => absurd infinite.1 finite.ne
  refine ⟨sign, fun _ => infinite, fun less => absurd (size ▸ large) (not_le.mpr less), fun tiny => ?_,
    fun finite => absurd finite notFinite, fun finite => absurd finite notFinite⟩
  rw [size] at tiny
  linarith only [tiny, half, one_le]

/-- A decimal has fewer bits than its exponent takes away. -/
theorem tiny_of_log2 {digits : ℕ} {e : ℤ} (small : (Nat.log2 digits : ℤ) + 1 + 3 * e ≤ -1076) :
    (digits * 10 ^ e : ℚ) ≤ 2 ^ (-1075 : ℤ) := by
  obtain ⟨n, rfl⟩ := Int.exists_eq_neg_ofNat (by omega : e ≤ 0)
  have bits : (digits : ℚ) ≤ 2 ^ ((Nat.log2 digits : ℤ) + 1) := by
    exact_mod_cast Nat.lt_log2_self.le
  have power : (10 : ℚ) ^ (-(n : ℤ)) ≤ 2 ^ (3 * -(n : ℤ)) := by
    rw [zpow_mul, zpow_neg, zpow_neg, zpow_natCast, zpow_natCast]
    exact inv_anti₀ (by positivity) (pow_le_pow_left₀ (by norm_num) (by norm_num) n)
  calc (digits * 10 ^ (-(n : ℤ)) : ℚ)
      ≤ 2 ^ ((Nat.log2 digits : ℤ) + 1) * 2 ^ (3 * -(n : ℤ)) :=
        mul_le_mul bits power (by positivity) (by positivity)
    _ = 2 ^ ((Nat.log2 digits : ℤ) + 1 + 3 * -(n : ℤ)) := (zpow_add₀ two_ne_zero ..).symm
    _ ≤ 2 ^ (-1075 : ℤ) := zpow_le_zpow_right₀ one_le_two (by omega)

theorem overflow_le_of_exponent {digits : ℕ} {e : ℤ} (nonzero : digits ≠ 0) (large : 310 ≤ e) :
    (2 ^ 1024 - 2 ^ 970 : ℚ) ≤ digits * 10 ^ e := by
  have natural : 2 ^ 1024 ≤ 10 ^ 310 := by decide +kernel
  have limit : (2 : ℚ) ^ 1024 ≤ 10 ^ (310 : ℤ) := by exact_mod_cast natural
  have least : (0 : ℚ) ≤ 2 ^ 970 := by positivity
  have one_le : (1 : ℚ) ≤ digits := by exact_mod_cast Nat.one_le_iff_ne_zero.mpr nonzero
  calc (2 ^ 1024 - 2 ^ 970 : ℚ) ≤ 2 ^ 1024 := sub_le_self _ least
    _ ≤ 10 ^ (310 : ℤ) := limit
    _ ≤ 10 ^ e := zpow_le_zpow_right₀ (by norm_num) large
    _ ≤ digits * 10 ^ e := le_mul_of_one_le_left (by positivity) one_le

/-- A decimal is read as the binary number nearest to it. The cases that leave the powers of ten out are
those of zero, of numbers too large and of numbers too small. -/
theorem roundedFrom_scientific (s : Scientific) {y : Binary64} (magnitude : y.magnitude = s.magnitude)
    {negative : Bool} (sign : y.signField = if negative then 1 else 0) :
    RoundedFrom negative ((-1) ^ y.signField * s.value) y := by
  have nonneg : 0 ≤ s.value := by
    rw [Scientific.value]
    positivity
  have zero (tiny : s.value ≤ 2 ^ (-1075 : ℤ)) (nothing : s.magnitude = 0) :
      RoundedFrom negative ((-1) ^ y.signField * s.value) y :=
    (RoundedParts.of_tiny nonneg tiny).roundedFrom nonneg (by rw [magnitude, nothing]; decide) sign rfl
  by_cases none : s.digits = 0
  · apply zero
    · rw [Scientific.value, none, Nat.cast_zero, zero_mul]
      positivity
    · rw [Scientific.magnitude, if_pos none]
  by_cases large : 310 ≤ s.exponent
  · have infinite : s.magnitude = infinityBits := by rw [Scientific.magnitude, if_neg none, if_pos large]
    exact RoundedFrom.of_large (overflow_le_of_exponent none large)
      (y.isInfinite_iff.mpr (magnitude.trans infinite)) sign rfl
  by_cases small : (Nat.log2 s.digits : ℤ) + 1 + 3 * s.exponent ≤ -1076
  · apply zero (tiny_of_log2 small)
    rw [Scientific.magnitude, if_neg none, if_neg large, if_pos small]
  · have ratio : s.magnitude = magnitudeOfRatio (s.digits * Nat.pow 10 s.exponent.toNat)
        (Nat.pow 10 (-s.exponent).toNat) := by
      rw [Scientific.magnitude, if_neg none, if_neg large, if_neg small]
    have ten : 0 < 10 := by decide
    obtain ⟨k, r, parts, nearest, least, normal⟩ := magnitudeOfRatio_parts
      (Nat.mul_pos (Nat.pos_of_ne_zero none) (Nat.pow_pos (n := s.exponent.toNat) ten))
      (Nat.pow_pos (n := (-s.exponent).toNat) ten)
    have value : ((s.digits * 10 ^ s.exponent.toNat : ℕ) / (10 ^ (-s.exponent).toNat : ℕ) : ℚ) =
        s.value := by
      rw [Scientific.value, zpow_eq_div]
      push_cast
      ring
    rw [value] at nearest normal
    exact RoundedParts.roundedFrom ⟨nearest, least, normal⟩ nonneg (magnitude.trans (ratio.trans parts))
      sign rfl

end Binary64
end ScriptHost
