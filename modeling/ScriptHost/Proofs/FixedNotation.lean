import Mathlib.Data.List.TakeDrop
import Mathlib.Data.List.TakeWhile
import ScriptHost.Console.Token
import ScriptHost.Proofs.Binary64Value
import ScriptHost.Proofs.Utf8Decoding

/-! Numbers in fixed notation, read back. A finite number is read as the decimal fraction that was
written, and the binary number nearest to it is written in the same way. -/
namespace ScriptHost

/-- A cut stands in front of the first character that fails the test. -/
theorem span_append_of_stop {test : Char → Bool} {front behind : List Char} (all : ∀ c ∈ front, test c = true)
    (stop : ∀ c ∈ behind.head?, test c = false) : (front ++ behind).span test = (front, behind) := by
  rw [List.span_eq_takeWhile_dropWhile, List.takeWhile_append_of_pos all,
    List.dropWhile_append_of_pos all]
  cases behind with
  | nil => rw [List.takeWhile_nil, List.dropWhile_nil, List.append_nil]
  | cons c behind =>
    have other : ¬ test c = true := Bool.eq_false_iff.mp (stop c rfl)
    rw [List.takeWhile_cons_of_neg other, List.dropWhile_cons_of_neg other, List.append_nil]

/-- Digits, and what is behind them. -/
theorem span_digits {digits behind : List Char} (all : ∀ c ∈ digits, c.isDigit = true)
    (stop : ∀ c ∈ behind.head?, c.isDigit = false) :
    (digits ++ behind).span Char.isDigit = (digits, behind) :=
  span_append_of_stop all stop

theorem span_all_digits {digits : List Char} (all : ∀ c ∈ digits, c.isDigit = true) :
    digits.span Char.isDigit = (digits, []) := by
  have whole := @span_digits digits [] all (by simp)
  rwa [List.append_nil] at whole

theorem isDigit_point (behind : List Char) : ∀ c ∈ ('.' :: behind).head?, c.isDigit = false := by
  rintro c ⟨⟩
  rfl

namespace Binary64

theorem isDigit_of_mem_decimal {n : Nat} {c : Char} (member : c ∈ Nat.toDigits 10 n) :
    c.isDigit = true :=
  Nat.isDigit_of_mem_toDigits (by decide) (by decide) member

theorem isDigit_of_mem_paddedDigits {width n : Nat} {c : Char} (member : c ∈ paddedDigits width n) :
    c.isDigit = true := by
  rw [paddedDigits, List.mem_append] at member
  rcases member with zero | digit
  · rw [(List.mem_replicate.mp zero).2]
    decide
  · exact isDigit_of_mem_decimal digit

theorem length_paddedDigits {width n : Nat} (positive : 0 < width) (small : n < 10 ^ width) :
    (paddedDigits width n).length = width := by
  have fits := (Nat.length_toDigits_le_iff (by decide : 1 < 10) positive).mpr small
  rw [paddedDigits, List.length_append, List.length_replicate]
  omega

theorem ofDigitChars_paddedDigits (width n : Nat) :
    Nat.ofDigitChars 10 (paddedDigits width n) 0 = n := by
  rw [paddedDigits, Nat.ofDigitChars_append, Nat.ofDigitChars_replicate_zero, Nat.mul_zero,
    Nat.ofDigitChars_ten_toDigits]

theorem parse?_unsignedFixed {places : Nat} (positive : 0 < places) (units : Nat) :
    Scientific.parse? (unsignedFixed places units) = some ⟨units, -places⟩ := by
  have small : units % 10 ^ places < 10 ^ places := Nat.mod_lt _ (Nat.pow_pos (by decide))
  have count := length_paddedDigits positive small
  have value : Nat.ofDigitChars 10 (Nat.toDigits 10 (units / 10 ^ places) ++
      paddedDigits places (units % 10 ^ places)) 0 = units := by
    rw [Nat.ofDigitChars_append, Nat.ofDigitChars_eq_ofDigitChars_zero, count,
      Nat.ofDigitChars_ten_toDigits, ofDigitChars_paddedDigits]
    exact Nat.div_add_mod units (10 ^ places)
  have nonempty : Nat.toDigits 10 (units / 10 ^ places) ++
      paddedDigits places (units % 10 ^ places) ≠ [] :=
    List.append_ne_nil_of_left_ne_nil Nat.toDigits_ne_nil _
  have digits : ∀ c ∈ Nat.toDigits 10 (units / 10 ^ places), c.isDigit = true :=
    fun c => isDigit_of_mem_decimal
  have whole := span_digits digits (isDigit_point (paddedDigits places (units % 10 ^ places)))
  have fraction : (paddedDigits places (units % 10 ^ places)).span Char.isDigit =
      (paddedDigits places (units % 10 ^ places), []) :=
    span_all_digits fun c => isDigit_of_mem_paddedDigits
  simp only [Scientific.parse?, unsignedFixed, Nat.pow_eq, whole, Scientific.fractionPart, fraction,
    if_neg nonempty, Scientific.exponentPart?, value, count, Option.map_some, Int.zero_sub]

theorem magnitude?_unsignedFixed {places : Nat} (positive : 0 < places) (units : Nat) :
    magnitude? (unsignedFixed places units) = some (Scientific.magnitude ⟨units, -places⟩) := by
  have point : '.' ∈ (unsignedFixed places units).map Char.toLower := by
    apply List.mem_map.mpr
    exact ⟨'.', List.mem_append_right _ List.mem_cons_self, by decide⟩
  have word {w : List Char} (pointless : '.' ∉ w) :
      (unsignedFixed places units).map Char.toLower ≠ w := fun same => pointless (same ▸ point)
  rw [magnitude?, if_neg, if_neg, parse?_unsignedFixed positive, Option.map_some]
  · exact word (by decide)
  · exact not_or.mpr ⟨word (by decide), word (by decide)⟩

/-- A fraction of so few places is too large for the cases that leave the division out. -/
theorem magnitude_of_places {places units : Nat} (few : places ≤ 358) (nonzero : 0 < units) :
    Scientific.magnitude ⟨units, -places⟩ = magnitudeOfRatio units (Nat.pow 10 places) := by
  have scale : (-(places : Int)).toNat = 0 := by omega
  have count : (- -(places : Int)).toNat = places := by omega
  simp only [Scientific.magnitude]
  rw [if_neg (by omega), if_neg (by omega), if_neg (by omega), scale, count, Nat.pow_eq, Nat.pow_zero,
    Nat.mul_one]

theorem magnitudeOfScientific_le (s : Scientific) : s.magnitude ≤ infinityBits := by
  unfold Scientific.magnitude
  split
  · exact Nat.zero_le _
  · split
    · exact Nat.le_refl _
    · split
      · exact Nat.zero_le _
      · exact Nat.min_le_left ..

theorem units_of_magnitude_zero {x : Binary64} (zero : x.magnitude = 0) (places : Nat) :
    x.units places = 0 := by
  have significand : x.significand = 0 := by rw [significand_eq, zero, if_pos (by decide)]
  rw [units, significand, Nat.zero_shiftLeft, Nat.zero_mul]
  exact roundHalfEven_eq (one_shiftLeft_pos _) (by rw [Nat.cast_zero, zero_div]) (NearestEven.natCast 0)

/-- The number read is finite and is written with the same digits. -/
theorem units_of_read {x y : Binary64} {places : Nat} (few : places ≤ 358)
    (finite : x.magnitude < infinityBits)
    (read : y.magnitude = Scientific.magnitude ⟨x.units places, -places⟩) :
    y.magnitude < infinityBits ∧ y.units places = x.units places := by
  rcases Nat.eq_zero_or_pos (x.units places) with zero | nonzero
  · rw [zero] at read ⊢
    have nothing : y.magnitude = 0 := read
    exact ⟨by rw [nothing]; decide, units_of_magnitude_zero nothing places⟩
  · rw [magnitude_of_places few nonzero] at read
    exact units_of_magnitudeOfRatio finite nonzero read

theorem toFixed_of_nan {x : Binary64} (nan : infinityBits < x.magnitude) (places : Nat) :
    x.toFixed places = "nan".toList := by
  rw [toFixed, isNaN, if_pos (decide_eq_true nan)]

theorem toFixed_of_infinite {x : Binary64} (infinite : x.magnitude = infinityBits) (places : Nat) :
    x.toFixed places = if x.negative then '-' :: "inf".toList else "inf".toList := by
  simp only [toFixed, isNaN, isInfinite, infinite, Nat.lt_irrefl, decide_false, Bool.false_eq_true,
    BEq.rfl, if_false, if_true]

theorem toFixed_of_finite {x : Binary64} (finite : x.magnitude < infinityBits) (places : Nat) :
    x.toFixed places = if x.negative then '-' :: unsignedFixed places (x.units places)
      else unsignedFixed places (x.units places) := by
  have notNaN : x.isNaN = false := decide_eq_false (Nat.lt_asymm finite)
  have notInfinite : x.isInfinite = false := beq_eq_false_iff_ne.mpr finite.ne
  simp only [toFixed, notNaN, notInfinite, Bool.false_eq_true, if_false]

theorem splitSign_unsignedFixed (places units : Nat) :
    Decimal.splitSign (unsignedFixed places units) = (false, unsignedFixed places units) := by
  obtain ⟨c, rest, digits⟩ := List.exists_cons_of_ne_nil
    (Nat.toDigits_ne_nil (b := 10) (n := units / Nat.pow 10 places))
  have digit : c.isDigit = true := by
    apply isDigit_of_mem_decimal
    rw [digits]
    exact List.mem_cons_self
  simp only [unsignedFixed, digits, List.cons_append]
  unfold Decimal.splitSign
  split
  · next sign =>
    cases sign
    exact absurd digit (by decide)
  · next sign =>
    cases sign
    exact absurd digit (by decide)
  · rfl

theorem parse?_of_sign {text : List Char} (unsigned : Decimal.splitSign text = (false, text))
    (negative : Bool) :
    parse? (if negative then '-' :: text else text) = (magnitude? text).map (ofMagnitude negative) := by
  cases negative with
  | false => simp only [parse?, Bool.false_eq_true, if_false, unsigned]
  | true => rfl

/-- What is written is read as a number that is written in the same way. Infinities and numbers that
round to zero keep their sign; a NaN is written without one. -/
theorem parse?_toFixed {places : Nat} (positive : 0 < places) (few : places ≤ 358) (x : Binary64) :
    ∃ y, parse? (x.toFixed places) = some y ∧ y.toFixed places = x.toFixed places := by
  rcases Nat.lt_trichotomy x.magnitude infinityBits with finite | infinite | nan
  · have written := toFixed_of_finite finite places
    have small := (magnitudeOfScientific_le ⟨x.units places, -places⟩).trans_lt infinityBits_lt_signBit
    obtain ⟨below, same⟩ := units_of_read few finite (magnitude_ofMagnitude small x.negative)
    have read : parse? (x.toFixed places) =
        some (ofMagnitude x.negative (Scientific.magnitude ⟨x.units places, -places⟩)) := by
      rw [written, parse?_of_sign (splitSign_unsignedFixed _ _), magnitude?_unsignedFixed positive,
        Option.map_some]
    refine ⟨_, read, ?_⟩
    rw [toFixed_of_finite below, same, negative_ofMagnitude small, written]
  · have written := toFixed_of_infinite infinite places
    have read : parse? (x.toFixed places) = some (ofMagnitude x.negative infinityBits) := by
      rw [written, parse?_of_sign rfl]
      rfl
    refine ⟨_, read, ?_⟩
    rw [toFixed_of_infinite (magnitude_ofMagnitude infinityBits_lt_signBit x.negative),
      negative_ofMagnitude infinityBits_lt_signBit, written]
  · have written := toFixed_of_nan nan places
    have read : parse? (x.toFixed places) = some (ofMagnitude false nanMagnitude) := by
      rw [written]
      rfl
    exact ⟨_, read, by rw [written, toFixed_of_nan (by decide)]⟩

end Binary64

/-- A printed number is accepted where a number is wanted, and the number it gives prints the
same. -/
theorem parseToken_format (heap : Heap) (x : Binary64) :
    ∃ y : Binary64, parseToken heap .float (Utf8.ofString x.format) = (.ok (some (.float y)), heap) ∧
      y.format = x.format := by
  have six : 0 < 6 ∧ 6 ≤ 358 := by decide
  obtain ⟨y, read, same⟩ := Binary64.parse?_toFixed six.1 six.2 x
  refine ⟨y, ?_, congrArg String.ofList same⟩
  have text : Utf8.decode? (Utf8.ofString x.format) = some (x.toFixed 6) := by
    rw [Utf8.ofString, Binary64.format, String.toList_ofList, Utf8.decode?_encode]
  simp only [parseToken, numeral?, text, Option.bind_some, read, Option.map_some]

/-- The number nearest to 0.1 is read back, and another one, a third, comes back as a number with the same
text. -/
example :
    (⟨0x3FB999999999999A⟩ : Binary64).format = "0.100000" ∧
      numeral? Binary64.parse? (Utf8.ofString "0.100000") = some ⟨0x3FB999999999999A⟩ ∧
      (⟨0x3FD5555555555555⟩ : Binary64).format = "0.333333" ∧
      numeral? Binary64.parse? (Utf8.ofString "0.333333") = some ⟨0x3FD55553EF6B5D46⟩ ∧
      (⟨0x3FD55553EF6B5D46⟩ : Binary64).format = "0.333333" := by
  decide +kernel

end ScriptHost
