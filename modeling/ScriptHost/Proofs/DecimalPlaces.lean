import ScriptHost.Proofs.Binary64Fields
import ScriptHost.Proofs.FixedNotation

/-! The text of a number as a decimal fraction: of all multiples of the last place it spells the one
nearest to the exact value, with all digits of the whole part and the sign of the bit pattern. -/
namespace ScriptHost

/-- Digits in front of a point, without a zero to fill up, and so many behind it. -/
structure IsFixed (places : ℕ) (whole fraction : List Char) : Prop where
  digits : ∀ c ∈ whole ++ fraction, c.isDigit = true
  begun : whole ≠ []
  unfilled : whole.head? = some '0' → whole = ['0']
  places : fraction.length = places

/-- The number that such digits spell. -/
def fixedValue (whole fraction : List Char) : ℚ :=
  Nat.ofDigitChars 10 whole 0 + Nat.ofDigitChars 10 fraction 0 / 10 ^ fraction.length

theorem head?_toDigits {n : ℕ} (zero : (Nat.toDigits 10 n).head? = some '0') : n = 0 := by
  induction n using Nat.strong_induction_on with
  | _ n ih =>
    rw [Nat.toDigits_eq_if (by decide)] at zero
    split at zero
    · next small =>
      rw [List.head?_cons, Option.some.injEq] at zero
      exact Nat.digitChar_eq_zero.mp zero
    · next large =>
      rw [List.head?_append_of_ne_nil _ Nat.toDigits_ne_nil] at zero
      have none := ih (n / 10) (by omega) zero
      omega

/-- Digits whose number is even end with an even one. -/
theorem even_last_digit {digits : List Char} (all : ∀ c ∈ digits, c.isDigit = true)
    (even : Even (Nat.ofDigitChars 10 digits 0)) {c : Char} (last : digits.getLast? = some c) :
    c ∈ ['0', '2', '4', '6', '8'] := by
  obtain ⟨front, rfl⟩ := List.getLast?_eq_some_iff.mp last
  have digit := Decimal.toNat_of_isDigit (all c (List.mem_append_right _ List.mem_cons_self))
  have zero : '0'.toNat = 48 := rfl
  rw [Nat.ofDigitChars_append, Nat.ofDigitChars_cons, Nat.ofDigitChars_nil, Nat.even_iff] at even
  have cases : c.toNat = 48 ∨ c.toNat = 50 ∨ c.toNat = 52 ∨ c.toNat = 54 ∨ c.toNat = 56 := by omega
  have char := Char.ofNat_toNat c
  rcases cases with code | code | code | code | code <;> rw [code] at char <;> rw [← char] <;> decide

/-- Of all multiples of the last place, the number written is the nearest to a value. Where another one
is as near, the number written is the one with an even last digit. -/
structure NearestPlace (places : ℕ) (v written : ℚ) (fraction : List Char) : Prop where
  multiple : ∃ n : ℤ, written = n / 10 ^ places
  nearest : ∀ m : ℤ, |v - written| ≤ |v - m / 10 ^ places|
  even : ∀ m : ℤ, m / 10 ^ places ≠ written → |v - written| = |v - m / 10 ^ places| →
    ∀ c ∈ fraction.getLast?, c ∈ ['0', '2', '4', '6', '8']

namespace Binary64

theorem isFixed_unsignedFixed {places : ℕ} (positive : 0 < places) (units : ℕ) :
    IsFixed places (Nat.toDigits 10 (units / 10 ^ places))
      (paddedDigits places (units % 10 ^ places)) where
  digits c member := (List.mem_append.mp member).elim isDigit_of_mem_decimal isDigit_of_mem_paddedDigits
  begun := Nat.toDigits_ne_nil
  unfilled zero := by
    rw [head?_toDigits zero]
    rfl
  places := length_paddedDigits positive (Nat.mod_lt _ (Nat.pow_pos (by decide)))

theorem fixedValue_unsignedFixed {places : ℕ} (positive : 0 < places) (units : ℕ) :
    fixedValue (Nat.toDigits 10 (units / 10 ^ places)) (paddedDigits places (units % 10 ^ places)) =
      units / 10 ^ places := by
  have power_pos : (0 : ℚ) < 10 ^ places := by positivity
  have parts : (10 ^ places * (units / 10 ^ places : ℕ) + (units % 10 ^ places : ℕ) : ℚ) = units := by
    exact_mod_cast Nat.div_add_mod units (10 ^ places)
  rw [fixedValue, Nat.ofDigitChars_ten_toDigits, ofDigitChars_paddedDigits,
    (isFixed_unsignedFixed positive units).places, eq_div_iff power_pos.ne', add_mul,
    div_mul_cancel₀ _ power_pos.ne', mul_comm, parts]

/-- The last digit is even where the number of units is. -/
theorem even_last_of_even {places units : ℕ} (positive : 0 < places) (even : Even units) :
    ∀ c ∈ (paddedDigits places (units % 10 ^ places)).getLast?, c ∈ ['0', '2', '4', '6', '8'] := by
  intro c last
  apply even_last_digit (fun c => isDigit_of_mem_paddedDigits) _ last
  rw [ofDigitChars_paddedDigits, Nat.even_iff, Nat.mod_mod_of_dvd _ (dvd_pow (by decide) positive.ne')]
  exact Nat.even_iff.mp even

theorem signed_intCast (sign : ℕ) (m : ℤ) (places : ℕ) :
    (-1) ^ sign * (m / 10 ^ places : ℚ) = (((-1) ^ sign * m : ℤ) : ℚ) * (10 ^ places)⁻¹ := by
  push_cast
  ring

theorem nearestPlace_units {places : ℕ} (positive : 0 < places) (x : Binary64) :
    NearestPlace places x.value ((-1) ^ x.signField * (x.units places / 10 ^ places))
      (paddedDigits places (x.units places % 10 ^ places)) := by
  have step_pos : (0 : ℚ) < (10 ^ places)⁻¹ := by positivity
  have near := units_nearestEven places x
  rw [← div_inv_eq_mul] at near
  have written : |x.value - (-1) ^ x.signField * (x.units places / 10 ^ places)| =
      |x.absValue - x.units places * (10 ^ places)⁻¹| := by
    rw [value_eq, ← mul_sub, abs_mul, abs_neg_one_pow, one_mul, div_eq_mul_inv]
  have multiple (m : ℤ) : |x.value - m / 10 ^ places| =
      |x.absValue - ((-1) ^ x.signField * m : ℤ) * (10 ^ places)⁻¹| := by
    rw [value_eq, abs_signed_sub, signed_intCast]
  refine ⟨⟨(-1) ^ x.signField * x.units places, ?_⟩, fun m => ?_, fun m other tie => ?_⟩
  · push_cast
    ring
  · rw [written, multiple]
    exact near.abs_sub_le_steps step_pos _
  · rw [written, multiple] at tie
    apply even_last_of_even positive (near.even_of_tied_steps step_pos _ tie)
    intro same
    apply other
    have square : ((-1 : ℤ) ^ x.signField) * (-1) ^ x.signField = 1 := by
      rw [← mul_pow, neg_one_mul, neg_neg, one_pow]
    have count : m = (-1) ^ x.signField * x.units places := by
      rw [← same, ← mul_assoc, square, one_mul]
    rw [count]
    push_cast
    ring

/-- Every number is written: a NaN without its sign, an infinity with it, and a finite number with the
sign of its bit pattern, all digits in front of the point and the six nearest behind it. -/
theorem format_nearest (x : Binary64) :
    (x.IsNaN → x.format = "nan") ∧
      (x.IsInfinite → x.format = if x.signField = 1 then "-inf" else "inf") ∧
      (x.IsFinite → ∃ whole fraction : List Char,
        x.format.toList = (if x.signField = 1 then ['-'] else []) ++ whole ++ '.' :: fraction ∧
        IsFixed 6 whole fraction ∧
        NearestPlace 6 x.value ((-1) ^ x.signField * fixedValue whole fraction) fraction) := by
  have six : 0 < 6 := by decide
  refine ⟨fun nan => ?_, fun infinite => ?_, fun finite => ?_⟩
  · rw [format, toFixed_of_nan (x.isNaN_iff.mp nan), String.ofList_toList]
  · rw [format, toFixed_of_infinite (x.isInfinite_iff.mp infinite)]
    simp only [x.negative_iff]
    split <;> rfl
  · refine ⟨Nat.toDigits 10 (x.units 6 / 10 ^ 6), paddedDigits 6 (x.units 6 % 10 ^ 6), ?_,
      isFixed_unsignedFixed six _, ?_⟩
    · rw [format, String.toList_ofList, toFixed_of_finite (x.isFinite_iff.mp finite)]
      simp only [x.negative_iff, unsignedFixed, Nat.pow_eq]
      split
      · rw [List.singleton_append, List.cons_append]
      · rw [List.nil_append]
    · rw [fixedValue_unsignedFixed six]
      exact nearestPlace_units six x

/-- The number 2 ^ -7 = 0.0078125 is as far from 0.007812 as from 0.007813. -/
theorem format_nearest_once :
    (mk 0x7FF8000000000001).format = "nan" ∧ (mk 0xFFF0000000000000).format = "-inf" ∧
      (mk 0x3F80000000000000).format = "0.007812" ∧
      ∃ whole fraction : List Char, "0.007812".toList = whole ++ '.' :: fraction ∧
        IsFixed 6 whole fraction ∧
        NearestPlace 6 (mk 0x3F80000000000000).value (fixedValue whole fraction) fraction := by
  have written : (mk 0x3F80000000000000).format = "0.007812" := by decide +kernel
  have positive : (mk 0x3F80000000000000).signField = 0 := by decide
  obtain ⟨whole, fraction, text, fixed, near⟩ :=
    (format_nearest (mk 0x3F80000000000000)).2.2 (by unfold IsFinite; decide)
  rw [positive, if_neg (by decide), List.nil_append] at text
  rw [positive, pow_zero, one_mul] at near
  exact ⟨(format_nearest (mk 0x7FF8000000000001)).1 (by unfold IsNaN; decide),
    ((format_nearest (mk 0xFFF0000000000000)).2.1 (by unfold IsInfinite; decide)).trans (by decide),
    written, whole, fraction, written ▸ text, fixed, near⟩

end Binary64
end ScriptHost
