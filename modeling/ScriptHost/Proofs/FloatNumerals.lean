import ScriptHost.Proofs.DecimalPlaces
import ScriptHost.Proofs.NearestBinary64

/-! The numerals of floating-point numbers as a grammar that says what each spells, and the reader of
tokens against it: it takes all spellings and no other tokens, and gives the binary number nearest to the
decimal that was spelled. -/
namespace ScriptHost.Numeral

def IsDigits (text : List Char) : Prop := text ≠ [] ∧ ∀ c ∈ text, c.isDigit = true

/-- A sign, which may be left out; `true` stands for a minus. -/
inductive Sign : List Char → Bool → Prop
  | absent : Sign [] false
  | plus : Sign ['+'] false
  | minus : Sign ['-'] true

/-- Digits, which may have a point in front of them, among them or behind them. -/
inductive Mantissa : List Char → ℚ → Prop
  | whole {digits : List Char} (all : IsDigits digits) : Mantissa digits (fixedValue digits [])
  | point {whole fraction : List Char} (all : IsDigits (whole ++ fraction)) :
      Mantissa (whole ++ '.' :: fraction) (fixedValue whole fraction)

/-- A power of ten, which may be left out. -/
inductive Exponent : List Char → ℤ → Prop
  | absent : Exponent [] 0
  | present {letter : Char} {sign digits : List Char} {negative : Bool} (mark : letter ∈ ['e', 'E'])
      (signed : Sign sign negative) (all : IsDigits digits) :
      Exponent (letter :: (sign ++ digits))
        (if negative then -(Nat.ofDigitChars 10 digits 0 : ℤ) else Nat.ofDigitChars 10 digits 0)

/-- A word of small letters, each of them written small or large. -/
def AnyCase (word : String) (text : List Char) : Prop :=
  List.Forall₂ (fun c letter => c = letter ∨ c = letter.toUpper) text word.toList

/-- What a numeral means, apart from its sign. -/
inductive Meaning where
  | infinity
  | nan
  | number (v : ℚ)

inductive Unsigned : List Char → Meaning → Prop
  | infinity {text : List Char} (word : AnyCase "inf" text ∨ AnyCase "infinity" text) :
      Unsigned text .infinity
  | nan {text : List Char} (word : AnyCase "nan" text) : Unsigned text .nan
  | number {mantissa exponent : List Char} {v : ℚ} {e : ℤ} (front : Mantissa mantissa v)
      (back : Exponent exponent e) : Unsigned (mantissa ++ exponent) (.number (v * 10 ^ e))

inductive Spells : List Char → Bool → Meaning → Prop
  | mk {sign text : List Char} {negative : Bool} {meaning : Meaning} (signed : Sign sign negative)
      (unsigned : Unsigned text meaning) : Spells (sign ++ text) negative meaning

/-- A binary number stands for a numeral: with its sign, and of a decimal it is the nearest one. -/
def Meaning.IsReadAs (negative : Bool) (y : Binary64) : Meaning → Prop
  | .infinity => y.IsInfinite ∧ y.signField = if negative then 1 else 0
  | .nan => y.IsNaN ∧ y.signField = if negative then 1 else 0
  | .number v => y.RoundedFrom negative (if negative then -v else v)

/-! The parts of a numeral against the readers of these parts. -/

theorem Sign.splitSign {sign text : List Char} {negative : Bool} (signed : Sign sign negative)
    (unsigned : Decimal.splitSign text = (false, text)) :
    Decimal.splitSign (sign ++ text) = (negative, text) := by
  cases signed with
  | absent => exact unsigned
  | plus => rfl
  | minus => rfl

theorem exists_sign (text : List Char) :
    ∃ sign, Sign sign (Decimal.splitSign text).1 ∧ text = sign ++ (Decimal.splitSign text).2 := by
  unfold Decimal.splitSign
  split
  · exact ⟨_, .plus, rfl⟩
  · exact ⟨_, .minus, rfl⟩
  · exact ⟨_, .absent, rfl⟩

theorem natural?_eq_some_iff {text : List Char} {n : ℕ} :
    Decimal.natural? text = some n ↔ IsDigits text ∧ Nat.ofDigitChars 10 text 0 = n := by
  rw [Decimal.natural?, Option.ite_none_right_eq_some, Option.some.injEq, List.all_eq_true, IsDigits]

theorem integer?_eq_some_iff {text : List Char} {e : ℤ} :
    Decimal.integer? text = some e ↔ ∃ n, Decimal.natural? (Decimal.splitSign text).2 = some n ∧
      (if (Decimal.splitSign text).1 then -(n : ℤ) else n) = e := by
  simp [Decimal.integer?, Option.bind_eq_some_iff]

theorem exponentPart?_eq_some_iff {text : List Char} {e : ℤ} :
    Scientific.exponentPart? text = some e ↔ Exponent text e := by
  constructor
  · intro read
    unfold Scientific.exponentPart? at read
    split at read
    · cases read
      exact .absent
    · next letter rest =>
      rw [Option.ite_none_right_eq_some, integer?_eq_some_iff] at read
      obtain ⟨mark, n, digits, rfl⟩ := read
      obtain ⟨sign, signed, text⟩ := exists_sign rest
      obtain ⟨all, rfl⟩ := natural?_eq_some_iff.mp digits
      nth_rewrite 1 [text]
      exact .present (by simpa using mark) signed all
  · rintro (_ | ⟨mark, signed, all⟩)
    · rfl
    · have split := signed.splitSign (Decimal.splitSign_of_digits (List.all_eq_true.mpr all.2))
      rw [Scientific.exponentPart?, if_pos (by simpa using mark), integer?_eq_some_iff, split]
      exact ⟨_, natural?_eq_some_iff.mpr ⟨all, rfl⟩, rfl⟩

/-- The place of the point is counted off the exponent. -/
theorem value_point (whole fraction : List Char) (e : ℤ) :
    Scientific.value ⟨Nat.ofDigitChars 10 (whole ++ fraction) 0, e - fraction.length⟩ =
      fixedValue whole fraction * 10 ^ e := by
  have power_pos : (0 : ℚ) < 10 ^ fraction.length := by positivity
  rw [Scientific.value, fixedValue, Nat.ofDigitChars_append, Nat.ofDigitChars_eq_ofDigitChars_zero,
    zpow_sub₀ (by norm_num), zpow_natCast, ← mul_div_assoc, div_eq_iff power_pos.ne', mul_right_comm,
    add_mul, div_mul_cancel₀ _ power_pos.ne']
  push_cast
  rw [mul_comm (10 ^ fraction.length : ℚ)]

/-- A mantissa ends at the exponent, which starts with neither a digit nor a point. -/
theorem Exponent.head {text : List Char} {e : ℤ} (exponent : Exponent text e) :
    ∀ c ∈ text.head?, c.isDigit = false ∧ c ≠ '.' := by
  rcases exponent with _ | ⟨mark, signed, all⟩
  · simp
  · rintro c ⟨⟩
    rcases List.mem_pair.mp mark with rfl | rfl <;> decide

theorem fractionPart_of_head {text : List Char} (stop : ∀ c ∈ text.head?, c ≠ '.') :
    Scientific.fractionPart text = ([], text) := by
  unfold Scientific.fractionPart
  split
  · exact absurd rfl (stop '.' rfl)
  · rfl

theorem parse?_of_mantissa {mantissa exponent : List Char} {v : ℚ} {e : ℤ} (front : Mantissa mantissa v)
    (back : Exponent exponent e) :
    ∃ s, Scientific.parse? (mantissa ++ exponent) = some s ∧ s.value = v * 10 ^ e := by
  have stop : ∀ c ∈ exponent.head?, c.isDigit = false := fun c first => (back.head c first).1
  have noPoint : ∀ c ∈ exponent.head?, c ≠ '.' := fun c first => (back.head c first).2
  have power := exponentPart?_eq_some_iff.mpr back
  cases front with
  | whole all =>
    refine ⟨_, ?_, value_point mantissa [] e⟩
    simp only [Scientific.parse?, span_digits all.2 stop, fractionPart_of_head noPoint, power,
      List.append_nil, if_neg all.1, Option.map_some]
  | @point whole fraction all =>
    have digits := List.forall_mem_append.mp all.2
    refine ⟨_, ?_, value_point whole fraction e⟩
    rw [List.append_assoc, List.cons_append]
    simp only [Scientific.parse?, span_digits digits.1 (isDigit_point _), Scientific.fractionPart,
      span_digits digits.2 stop, power, if_neg all.1, Option.map_some]

/-- Digits, and what the reader takes to be behind them. -/
theorem exists_digits (text : List Char) :
    ∃ digits behind, text.span Char.isDigit = (digits, behind) ∧ text = digits ++ behind ∧
      ∀ c ∈ digits, c.isDigit = true :=
  ⟨_, _, List.span_eq_takeWhile_dropWhile .., List.takeWhile_append_dropWhile.symm,
    fun _ => List.mem_takeWhile_imp⟩

theorem exists_mantissa_of_parse? {text : List Char} {s : Scientific}
    (read : Scientific.parse? text = some s) :
    ∃ mantissa exponent v e, Mantissa mantissa v ∧ Exponent exponent e ∧
      text = mantissa ++ exponent := by
  obtain ⟨whole, rest, spanned, rfl, digits⟩ := exists_digits text
  simp only [Scientific.parse?, spanned] at read
  unfold Scientific.fractionPart at read
  split at read
  · next rest =>
    obtain ⟨fraction, exponent, spanned, rfl, digits'⟩ := exists_digits rest
    simp only [spanned] at read
    rw [Option.ite_none_left_eq_some, Option.map_eq_some_iff] at read
    obtain ⟨some, e, power, -⟩ := read
    have all : IsDigits (whole ++ fraction) := ⟨some, List.forall_mem_append.mpr ⟨digits, digits'⟩⟩
    refine ⟨_, _, _, e, .point all, exponentPart?_eq_some_iff.mp power, ?_⟩
    rw [List.append_assoc, List.cons_append]
  · simp only [List.append_nil] at read
    rw [Option.ite_none_left_eq_some, Option.map_eq_some_iff] at read
    obtain ⟨some, e, power, -⟩ := read
    exact ⟨_, _, _, e, .whole ⟨some, digits⟩, exponentPart?_eq_some_iff.mp power, rfl⟩

/-! Words. -/

theorem eq_or_eq_toUpper (c : Char) : c = c.toLower ∨ c = c.toLower.toUpper := by
  by_cases upper : 'A'.val ≤ c.val ∧ c.val ≤ 'Z'.val
  · right
    have letters : ∀ n ∈ List.range' 65 26, Char.ofNat n = (Char.ofNat n).toLower.toUpper := by decide
    have code : c.toNat ∈ List.range' 65 26 :=
      List.mem_range'_1.mpr ⟨UInt32.le_iff_toNat_le.mp upper.1,
        Nat.lt_succ_of_le (UInt32.le_iff_toNat_le.mp upper.2)⟩
    have same := letters c.toNat code
    rwa [Char.ofNat_toNat] at same
  · left
    have same : c.toLower = c := dif_neg upper
    rw [same]

/-- A word of small letters only. -/
def IsSmall (letters : List Char) : Bool :=
  letters.all fun letter => letter.toLower == letter && letter.toUpper.toLower == letter

theorem anyCase_iff {word : String} {text : List Char} (small : IsSmall word.toList) :
    AnyCase word text ↔ text.map Char.toLower = word.toList := by
  rw [AnyCase]
  generalize word.toList = letters at *
  simp only [IsSmall, List.all_eq_true, Bool.and_eq_true, beq_iff_eq] at small
  constructor
  · intro spelled
    induction spelled with
    | nil => rfl
    | cons one _ ih =>
      rw [List.forall_mem_cons] at small
      rw [List.map_cons, ih small.2]
      rcases one with rfl | rfl
      · rw [small.1.1]
      · rw [small.1.2]
  · rintro rfl
    rw [List.forall₂_map_right_iff]
    exact List.forall₂_same.mpr fun c _ => eq_or_eq_toUpper c

theorem anyCase_inf {text : List Char} : AnyCase "inf" text ↔ text.map Char.toLower = "inf".toList :=
  anyCase_iff (by decide)

theorem anyCase_infinity {text : List Char} :
    AnyCase "infinity" text ↔ text.map Char.toLower = "infinity".toList :=
  anyCase_iff (by decide)

theorem anyCase_nan {text : List Char} : AnyCase "nan" text ↔ text.map Char.toLower = "nan".toList :=
  anyCase_iff (by decide)

theorem exists_cons_of_word {text word : List Char} {letter : Char}
    (spelled : text.map Char.toLower = letter :: word) :
    ∃ c rest, text = c :: rest ∧ (c = letter ∨ c = letter.toUpper) := by
  obtain ⟨c, rest, rfl, rfl, -⟩ := List.map_eq_cons_iff.mp spelled
  exact ⟨c, rest, rfl, eq_or_eq_toUpper c⟩

theorem Mantissa.exists_cons {mantissa : List Char} {v : ℚ} (front : Mantissa mantissa v) :
    ∃ c rest, mantissa = c :: rest ∧ (c.isDigit = true ∨ c = '.') := by
  cases front with
  | whole all =>
    obtain ⟨c, rest, rfl⟩ := List.exists_cons_of_ne_nil all.1
    exact ⟨c, rest, rfl, .inl (all.2 c List.mem_cons_self)⟩
  | @point whole fraction all =>
    cases whole with
    | nil => exact ⟨_, _, rfl, .inr rfl⟩
    | cons c rest => exact ⟨c, _, rfl, .inl (all.2 c List.mem_cons_self)⟩

/-- No word starts like a decimal. -/
theorem Mantissa.ne_word {mantissa exponent word : List Char} {v : ℚ} {letter : Char}
    (front : Mantissa mantissa v) (start : letter ∈ ['i', 'n']) :
    (mantissa ++ exponent).map Char.toLower ≠ letter :: word := by
  obtain ⟨c, rest, rfl, first⟩ := front.exists_cons
  intro spelled
  obtain ⟨d, _, same, cased⟩ := exists_cons_of_word spelled
  obtain ⟨rfl, -⟩ := List.cons.inj same
  rcases List.mem_pair.mp start with rfl | rfl <;> rcases cased with rfl | rfl <;> revert first <;> decide

/-- No unsigned numeral starts with a sign. -/
theorem Unsigned.splitSign {text : List Char} {meaning : Meaning} (unsigned : Unsigned text meaning) :
    Decimal.splitSign text = (false, text) := by
  have start : ∃ c rest, text = c :: rest ∧ (c.isDigit = true ∨ c ∈ ['.', 'i', 'I', 'n', 'N']) := by
    cases unsigned with
    | infinity word =>
      rw [anyCase_inf, anyCase_infinity] at word
      obtain ⟨c, rest, same, cased⟩ := word.elim exists_cons_of_word exists_cons_of_word
      exact ⟨c, rest, same, .inr (by rcases cased with rfl | rfl <;> decide)⟩
    | nan word =>
      obtain ⟨c, rest, same, cased⟩ := exists_cons_of_word (anyCase_nan.mp word)
      exact ⟨c, rest, same, .inr (by rcases cased with rfl | rfl <;> decide)⟩
    | number front back =>
      obtain ⟨c, rest, rfl, first⟩ := front.exists_cons
      exact ⟨c, _, rfl, first.imp_right (by rintro rfl; decide)⟩
  obtain ⟨c, rest, rfl, first⟩ := start
  unfold Decimal.splitSign
  split
  · next sign =>
    cases sign
    exact absurd first (by decide)
  · next sign =>
    cases sign
    exact absurd first (by decide)
  · rfl

/-- The magnitude that the reader gives for a numeral. -/
def Meaning.IsHeldBy (m : ℕ) : Meaning → Prop
  | .infinity => m = Binary64.infinityBits
  | .nan => m = Binary64.nanMagnitude
  | .number v => ∃ s : Scientific, s.value = v ∧ m = s.magnitude

theorem Unsigned.exists_magnitude? {text : List Char} {meaning : Meaning}
    (unsigned : Unsigned text meaning) :
    ∃ m, Binary64.magnitude? text = some m ∧ meaning.IsHeldBy m := by
  cases unsigned with
  | infinity word =>
    rw [anyCase_inf, anyCase_infinity] at word
    exact ⟨_, by rw [Binary64.magnitude?, if_pos word], rfl⟩
  | nan word =>
    rw [anyCase_nan] at word
    have other : ¬ ("nan".toList = "inf".toList ∨ "nan".toList = "infinity".toList) := by decide
    exact ⟨_, by rw [Binary64.magnitude?, word, if_neg other, if_pos rfl], rfl⟩
  | number front back =>
    obtain ⟨s, read, value⟩ := parse?_of_mantissa front back
    refine ⟨s.magnitude, ?_, s, value, rfl⟩
    rw [Binary64.magnitude?, if_neg, if_neg, read, Option.map_some]
    · exact front.ne_word (by decide)
    · exact not_or.mpr ⟨front.ne_word (by decide), front.ne_word (by decide)⟩

theorem exists_unsigned_of_magnitude? {text : List Char} {m : ℕ}
    (read : Binary64.magnitude? text = some m) : ∃ meaning, Unsigned text meaning := by
  rw [Binary64.magnitude?] at read
  split at read
  · next word =>
    rw [← anyCase_inf, ← anyCase_infinity] at word
    exact ⟨_, .infinity word⟩
  · split at read
    · next word => exact ⟨_, .nan (anyCase_nan.mpr word)⟩
    · rw [Option.map_eq_some_iff] at read
      obtain ⟨s, decimal, -⟩ := read
      obtain ⟨mantissa, exponent, v, e, front, back, rfl⟩ := exists_mantissa_of_parse? decimal
      exact ⟨_, .number front back⟩

theorem Meaning.IsHeldBy.small {m : ℕ} {meaning : Meaning} (held : meaning.IsHeldBy m) :
    m < Binary64.signBit := by
  cases meaning with
  | infinity =>
    rw [held]
    exact Binary64.infinityBits_lt_signBit
  | nan =>
    rw [held]
    decide
  | number v =>
    obtain ⟨s, -, rfl⟩ := held
    exact (Binary64.magnitudeOfScientific_le s).trans_lt Binary64.infinityBits_lt_signBit

theorem Meaning.IsHeldBy.isReadAs {m : ℕ} {meaning : Meaning} (held : meaning.IsHeldBy m)
    (negative : Bool) : meaning.IsReadAs negative (Binary64.ofMagnitude negative m) := by
  have magnitude := Binary64.magnitude_ofMagnitude held.small negative
  have sign : (Binary64.ofMagnitude negative m).signField = if negative then 1 else 0 := by
    rw [Binary64.signField_eq, Binary64.negative_ofMagnitude held.small]
  cases meaning with
  | infinity => exact ⟨(Binary64.isInfinite_iff _).mpr (magnitude.trans held), sign⟩
  | nan =>
    refine ⟨(Binary64.isNaN_iff _).mpr ?_, sign⟩
    rw [magnitude, held]
    decide
  | number v =>
    obtain ⟨s, rfl, rfl⟩ := held
    have rounded := Binary64.roundedFrom_scientific s magnitude sign
    rw [sign] at rounded
    cases negative with
    | false => simpa [Meaning.IsReadAs] using rounded
    | true => simpa [Meaning.IsReadAs] using rounded

/-- All spellings are read, as numbers that they mean. -/
theorem Spells.exists_parse? {text : List Char} {negative : Bool} {meaning : Meaning}
    (spelled : Spells text negative meaning) :
    ∃ y, Binary64.parse? text = some y ∧ meaning.IsReadAs negative y := by
  obtain ⟨signed, unsigned⟩ := spelled
  obtain ⟨m, read, held⟩ := unsigned.exists_magnitude?
  refine ⟨_, ?_, held.isReadAs negative⟩
  simp only [Binary64.parse?, signed.splitSign unsigned.splitSign, read, Option.map_some]

/-- Nothing else is read. -/
theorem exists_spells_of_parse? {text : List Char} {y : Binary64} (read : Binary64.parse? text = some y) :
    ∃ negative meaning, Spells text negative meaning := by
  obtain ⟨sign, signed, split⟩ := exists_sign text
  simp only [Binary64.parse?, Option.map_eq_some_iff] at read
  obtain ⟨m, magnitude, -⟩ := read
  obtain ⟨meaning, unsigned⟩ := exists_unsigned_of_magnitude? magnitude
  rw [split]
  exact ⟨_, meaning, .mk signed unsigned⟩

/-! Numerals are plain ASCII. -/

def IsAscii (text : List Char) : Prop := ∀ c ∈ text, c.toNat ≤ 127

theorem isAscii_of_digits {text : List Char} (all : ∀ c ∈ text, c.isDigit = true) : IsAscii text := by
  intro c member
  have digit := Decimal.toNat_of_isDigit (all c member)
  omega

theorem isAscii_of_word {text word : List Char} (spelled : text.map Char.toLower = word)
    (letters : word.all fun letter => letter.toNat ≤ 127 && letter.toUpper.toNat ≤ 127) :
    IsAscii text := by
  simp only [List.all_eq_true, Bool.and_eq_true, decide_eq_true_eq] at letters
  intro c member
  have ascii := letters c.toLower (spelled ▸ List.mem_map_of_mem member)
  rcases eq_or_eq_toUpper c with same | same
  · exact same ▸ ascii.1
  · exact same ▸ ascii.2

theorem isAscii_nil : IsAscii [] :=
  List.forall_mem_nil _

theorem IsAscii.append {first second : List Char} (one : IsAscii first) (two : IsAscii second) :
    IsAscii (first ++ second) :=
  List.forall_mem_append.mpr ⟨one, two⟩

theorem IsAscii.cons {c : Char} {text : List Char} (ascii : IsAscii text) (first : c.toNat ≤ 127) :
    IsAscii (c :: text) :=
  List.forall_mem_cons.mpr ⟨first, ascii⟩

theorem Sign.isAscii {text : List Char} {negative : Bool} (signed : Sign text negative) :
    IsAscii text := by
  cases signed with
  | absent => exact isAscii_nil
  | plus => exact isAscii_nil.cons (by decide)
  | minus => exact isAscii_nil.cons (by decide)

theorem Mantissa.isAscii {text : List Char} {v : ℚ} (front : Mantissa text v) : IsAscii text := by
  cases front with
  | whole all => exact isAscii_of_digits all.2
  | point all =>
    obtain ⟨whole, fraction⟩ := List.forall_mem_append.mp all.2
    exact (isAscii_of_digits whole).append ((isAscii_of_digits fraction).cons (by decide))

theorem Exponent.isAscii {text : List Char} {e : ℤ} (back : Exponent text e) : IsAscii text := by
  cases back with
  | absent => exact isAscii_nil
  | present mark signed all =>
    apply (signed.isAscii.append (isAscii_of_digits all.2)).cons
    rcases List.mem_pair.mp mark with rfl | rfl <;> decide

theorem Spells.isAscii {text : List Char} {negative : Bool} {meaning : Meaning}
    (spelled : Spells text negative meaning) : IsAscii text := by
  obtain ⟨signed, unsigned⟩ := spelled
  apply signed.isAscii.append
  cases unsigned with
  | infinity word =>
    rcases word with word | word
    · exact isAscii_of_word (anyCase_inf.mp word) (by decide)
    · exact isAscii_of_word (anyCase_infinity.mp word) (by decide)
  | nan word => exact isAscii_of_word (anyCase_nan.mp word) (by decide)
  | number front back => exact front.isAscii.append back.isAscii

theorem IsAscii.encode {text : List Char} (ascii : IsAscii text) :
    ∀ b ∈ Utf8.encode text, b.toNat ≤ 127 := by
  intro b member
  obtain ⟨c, inText, inChar⟩ := List.mem_flatMap.mp member
  have small := ascii c inText
  rw [Utf8.encodeChar_of_ascii small, List.mem_singleton] at inChar
  rw [inChar, UInt8.toNat_ofNat_of_lt' (small.trans_lt (by decide))]
  exact small

end ScriptHost.Numeral

namespace ScriptHost

open Utf8 (Bytes)
open Numeral (Spells)

/-- A token is read as a number where it spells one, with the sign that it spells and rounded to the
nearest of all numbers, and otherwise it is malformed. Only plain ASCII spells a number. -/
theorem parseToken_float (heap : Heap) (token : Bytes) :
    (∀ text negative meaning, Spells text negative meaning → token = Utf8.encode text →
      (∀ b ∈ token, b.toNat ≤ 127) ∧
      ∃ y, parseToken heap .float token = (.ok (some (.float y)), heap) ∧
        meaning.IsReadAs negative y) ∧
    ((∀ text negative meaning, Spells text negative meaning → token ≠ Utf8.encode text) →
      parseToken heap .float token = (.ok none, heap)) := by
  constructor
  · rintro text negative meaning spelled rfl
    obtain ⟨y, read, means⟩ := spelled.exists_parse?
    refine ⟨spelled.isAscii.encode, y, ?_, means⟩
    simp only [parseToken, numeral?, Utf8.decode?_encode, Option.bind_some, read, Option.map_some]
  · intro other
    have malformed : numeral? Binary64.parse? token = none := by
      rw [numeral?, Option.bind_eq_none_iff]
      intro text decoded
      rw [Option.eq_none_iff_forall_not_mem]
      intro y read
      obtain ⟨negative, meaning, spelled⟩ := Numeral.exists_spells_of_parse? read
      exact other text negative meaning spelled (Utf8.decode?_eq_some_iff.mp decoded)
    simp only [parseToken, malformed, Option.map_none]

/-- The number 2 ^ 53 + 1 is as far from 2 ^ 53 as from 2 ^ 53 + 2; a mark without a power of ten spells
nothing. -/
theorem parseToken_float_halfway :
    let heap := Heap.empty .addressable none
    let token := Utf8.ofString "-9007199254740993"
    Spells "-9007199254740993".toList true (.number 9007199254740993) ∧
      parseToken heap .float token = (.ok (some (.float ⟨0xC340000000000000⟩)), heap) ∧
      (Binary64.mk 0xC340000000000000).RoundedFrom true (-9007199254740993) ∧
      (∀ text negative meaning, Spells text negative meaning →
        Utf8.ofString "1e" ≠ Utf8.encode text) ∧
      parseToken heap .float (Utf8.ofString "1e") = (.ok none, heap) := by
  intro heap token
  have value : fixedValue "9007199254740993".toList [] * 10 ^ (0 : ℤ) = 9007199254740993 := by
    have digits : Nat.ofDigitChars 10 "9007199254740993".toList 0 = 9007199254740993 := by decide
    rw [fixedValue, digits]
    norm_num
  have spelled : Spells "-9007199254740993".toList true (.number 9007199254740993) := by
    have front : Numeral.Mantissa "9007199254740993".toList (fixedValue "9007199254740993".toList []) :=
      .whole ⟨by decide, List.all_eq_true.mp (by decide)⟩
    rw [← value]
    exact .mk .minus (.number front .absent)
  obtain ⟨-, y, read, rounded⟩ := (parseToken_float heap token).1 _ _ _ spelled rfl
  have number : Binary64.parse? "-9007199254740993".toList = some ⟨0xC340000000000000⟩ := by
    decide +kernel
  have bits : parseToken heap .float token = (.ok (some (.float ⟨0xC340000000000000⟩)), heap) := by
    simp only [parseToken, numeral?, token, Utf8.ofString, Utf8.decode?_encode, Option.bind_some, number,
      Option.map_some]
  have same : y = ⟨0xC340000000000000⟩ := by
    rw [read] at bits
    cases bits
    rfl
  have nothing : ∀ text negative meaning, Spells text negative meaning →
      Utf8.ofString "1e" ≠ Utf8.encode text := by
    intro text negative meaning spelled same
    obtain ⟨y, read, -⟩ := spelled.exists_parse?
    have decoded := congrArg Utf8.decode? same
    rw [Utf8.ofString, Utf8.decode?_encode, Utf8.decode?_encode, Option.some.injEq] at decoded
    rw [← decoded] at read
    cases read
  exact ⟨spelled, bits, same ▸ rounded, nothing, (parseToken_float heap _).2 nothing⟩

end ScriptHost
