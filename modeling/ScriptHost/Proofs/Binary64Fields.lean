import ScriptHost.Proofs.Binary64Value

/-! The three fields of a bit pattern - one bit of sign, eleven bits of exponent, 52 bits of fraction -
and the exact value that they encode. -/
namespace ScriptHost.Binary64

def signField (x : Binary64) : ℕ := x.bits.toNat / 2 ^ 63

def exponentField (x : Binary64) : ℕ := x.bits.toNat / 2 ^ 52 % 2 ^ 11

def fractionField (x : Binary64) : ℕ := x.bits.toNat % 2 ^ 52

def IsFinite (x : Binary64) : Prop := x.exponentField < 2047

def IsZero (x : Binary64) : Prop := x.exponentField = 0 ∧ x.fractionField = 0

def IsInfinite (x : Binary64) : Prop := x.exponentField = 2047 ∧ x.fractionField = 0

def IsNaN (x : Binary64) : Prop := x.exponentField = 2047 ∧ x.fractionField ≠ 0

/-- The exponent field 0 marks the numbers without a leading one. -/
def fieldValue (exponent fraction : ℕ) : ℚ :=
  if exponent = 0 then fraction * (2 : ℚ) ^ (-1074 : ℤ)
  else (2 ^ 52 + fraction) * (2 : ℚ) ^ ((exponent : ℤ) - 1075)

/-- The exact value of a finite number. -/
def value (x : Binary64) : ℚ := (-1) ^ x.signField * fieldValue x.exponentField x.fractionField

theorem magnitude_eq_fields (x : Binary64) :
    x.magnitude = x.exponentField * 2 ^ 52 + x.fractionField := by
  have bit : signBit = 2 ^ 63 := rfl
  rw [magnitude, exponentField, fractionField, bit]
  omega

theorem fractionField_lt (x : Binary64) : x.fractionField < 2 ^ 52 :=
  Nat.mod_lt _ (Nat.two_pow_pos 52)

theorem negative_iff (x : Binary64) : x.negative = true ↔ x.signField = 1 := by
  have bound := x.bits.toNat_lt
  have bit : signBit = 2 ^ 63 := rfl
  rw [negative, signField, bit, decide_eq_true_iff]
  omega

theorem signField_eq (x : Binary64) : x.signField = if x.negative then 1 else 0 := by
  have bound := x.bits.toNat_lt
  have sign := x.negative_iff
  split
  · next set => exact sign.mp set
  · next unset =>
    rw [sign, signField] at unset
    rw [signField]
    omega

theorem isFinite_iff (x : Binary64) : x.IsFinite ↔ x.magnitude < infinityBits := by
  have fraction := x.fractionField_lt
  rw [IsFinite, magnitude_eq_fields, infinityBits_eq]
  omega

theorem isZero_iff (x : Binary64) : x.IsZero ↔ x.magnitude = 0 := by
  rw [IsZero, magnitude_eq_fields]
  omega

theorem isInfinite_iff (x : Binary64) : x.IsInfinite ↔ x.magnitude = infinityBits := by
  have fraction := x.fractionField_lt
  rw [IsInfinite, magnitude_eq_fields, infinityBits_eq]
  omega

theorem isNaN_iff (x : Binary64) : x.IsNaN ↔ infinityBits < x.magnitude := by
  have fraction := x.fractionField_lt
  have exponent : x.exponentField < 2 ^ 11 := Nat.mod_lt _ (Nat.two_pow_pos 11)
  rw [IsNaN, magnitude_eq_fields, infinityBits_eq]
  omega

theorem absValue_eq_fieldValue (x : Binary64) :
    x.absValue = fieldValue x.exponentField x.fractionField := by
  have small := x.fractionField_lt
  have magnitude := x.magnitude_eq_fields
  unfold fieldValue
  split
  · next subnormal =>
    have parts : x.magnitude = 0 * 2 ^ 52 + x.fractionField := by rw [magnitude, subnormal]
    rw [absValue_of_parts parts (by omega) (.inl rfl), Nat.cast_zero, zero_sub]
  · next normal =>
    obtain ⟨k, steps⟩ := Nat.exists_eq_succ_of_ne_zero normal
    have parts : x.magnitude = k * 2 ^ 52 + (2 ^ 52 + x.fractionField) := by
      rw [magnitude, steps]
      omega
    have exponent : (x.exponentField : ℤ) - 1075 = k - 1074 := by omega
    rw [absValue_of_parts parts (by omega) (.inr (by omega)), exponent]
    push_cast
    rfl

theorem value_eq (x : Binary64) : x.value = (-1) ^ x.signField * x.absValue := by
  rw [value, absValue_eq_fieldValue]

/-! The order of bit patterns is the order of magnitudes. -/

theorem fieldValue_lt_of_fraction (exponent : ℕ) {fraction other : ℕ} (less : fraction < other) :
    fieldValue exponent fraction < fieldValue exponent other := by
  have less' : (fraction : ℚ) < other := by exact_mod_cast less
  unfold fieldValue
  split
  · exact mul_lt_mul_of_pos_right less' (by positivity)
  · exact mul_lt_mul_of_pos_right (by linarith) (by positivity)

/-- A full fraction is one unit below the next exponent. -/
theorem fieldValue_lt_of_exponent (exponent : ℕ) :
    fieldValue exponent (2 ^ 52 - 1) < fieldValue (exponent + 1) 0 := by
  have full : ((2 ^ 52 - 1 : ℕ) : ℚ) = 2 ^ 52 - 1 := by norm_num
  unfold fieldValue
  rw [full, if_neg (Nat.succ_ne_zero exponent), Nat.cast_zero, add_zero]
  split
  · next subnormal =>
    have unit_pos : (0 : ℚ) < 2 ^ (-1074 : ℤ) := by positivity
    have same : ((exponent + 1 : ℕ) : ℤ) - 1075 = -1074 := by omega
    rw [same]
    linarith
  · have unit_pos : (0 : ℚ) < 2 ^ ((exponent : ℤ) - 1075) := by positivity
    have next : ((exponent + 1 : ℕ) : ℤ) - 1075 = exponent - 1075 + 1 := by omega
    rw [next, zpow_add_one₀ two_ne_zero]
    linarith

theorem fieldValue_strictMono : StrictMono fun m : ℕ => fieldValue (m / 2 ^ 52) (m % 2 ^ 52) := by
  apply strictMono_nat_of_lt_succ
  intro m
  by_cases full : m % 2 ^ 52 = 2 ^ 52 - 1
  · have exponent : (m + 1) / 2 ^ 52 = m / 2 ^ 52 + 1 := by omega
    have fraction : (m + 1) % 2 ^ 52 = 0 := by omega
    simp only [full, exponent, fraction]
    exact fieldValue_lt_of_exponent _
  · have exponent : (m + 1) / 2 ^ 52 = m / 2 ^ 52 := by omega
    simp only [exponent]
    exact fieldValue_lt_of_fraction _ (by omega)

theorem absValue_eq_of_magnitude (x : Binary64) :
    x.absValue = fieldValue (x.magnitude / 2 ^ 52) (x.magnitude % 2 ^ 52) := by
  have small := x.fractionField_lt
  have exponent : x.magnitude / 2 ^ 52 = x.exponentField := by rw [magnitude_eq_fields]; omega
  have fraction : x.magnitude % 2 ^ 52 = x.fractionField := by rw [magnitude_eq_fields]; omega
  rw [absValue_eq_fieldValue, exponent, fraction]

theorem absValue_lt_iff {x y : Binary64} : x.absValue < y.absValue ↔ x.magnitude < y.magnitude := by
  rw [absValue_eq_of_magnitude, absValue_eq_of_magnitude]
  exact fieldValue_strictMono.lt_iff_lt

theorem absValue_inj {x y : Binary64} : x.absValue = y.absValue ↔ x.magnitude = y.magnitude := by
  rw [absValue_eq_of_magnitude, absValue_eq_of_magnitude]
  exact fieldValue_strictMono.injective.eq_iff

theorem eq_of_fields {x y : Binary64} (sign : x.signField = y.signField)
    (magnitude : x.magnitude = y.magnitude) : x = y := by
  have bits : x.bits.toNat = y.bits.toNat := by
    have bit : signBit = 2 ^ 63 := rfl
    rw [signField, signField] at sign
    rw [Binary64.magnitude, Binary64.magnitude, bit] at magnitude
    omega
  exact congrArg mk (UInt64.toNat_inj.mp bits)

/-- A sign can be moved to the other side of a distance. -/
theorem abs_signed_sub (sign : ℕ) (v w : ℚ) : |(-1) ^ sign * v - w| = |v - (-1) ^ sign * w| := by
  rcases neg_one_pow_eq_or ℚ sign with one | minus
  · rw [one, one_mul, one_mul]
  · rw [minus, ← abs_neg]
    ring_nf

theorem absValue_nonneg (x : Binary64) : 0 ≤ x.absValue := by
  rw [absValue]
  positivity

theorem abs_value (x : Binary64) : |x.value| = x.absValue := by
  rw [value_eq, abs_mul, abs_pow, abs_neg, abs_one, one_pow, one_mul, abs_of_nonneg x.absValue_nonneg]

end ScriptHost.Binary64
