import Mathlib.Data.Nat.Digits.Defs
import ScriptHost.Proofs.FloatNumerals
import ScriptHost.Proofs.PrintedItems

/-! Integers as tokens: a sign, which may be left out, and any number of digits. The reader takes every
token of this form whose number fits 64 bits, under the tags `i` and `b`, and no other token; an integer is
printed in the one form without a plus sign and without leading zeros, which is read as that integer. -/
namespace ScriptHost.Numeral

open Utf8 (Bytes)

/-- One or more of the digits from 0 to 9, as bytes. -/
def IsNumber (digits : Bytes) : Prop := digits ≠ [] ∧ ∀ b ∈ digits, 0x30 ≤ b.toNat ∧ b.toNat ≤ 0x39

/-- The number that digits stand for, the last one being that of the units. -/
def numberOf (digits : Bytes) : ℕ := Nat.ofDigits 10 (digits.reverse.map fun b => b.toNat - 0x30)

/-- The tokens that stand for an integer: digits, with a sign in front of them or without one. -/
inductive SpellsInteger : Bytes → ℤ → Prop
  | unsigned {digits : Bytes} (number : IsNumber digits) : SpellsInteger digits (numberOf digits)
  | plus {digits : Bytes} (number : IsNumber digits) :
      SpellsInteger (0x2B :: digits) (numberOf digits)
  | minus {digits : Bytes} (number : IsNumber digits) :
      SpellsInteger (0x2D :: digits) (-(numberOf digits : ℤ))

/-- The digits of the decimal form of an integer: no zero leads, unless it is all there is. -/
structure IsDecimal (n : ℤ) (digits : Bytes) : Prop where
  number : IsNumber digits
  unfilled : digits.head? = some 0x30 → digits = [0x30]
  value : numberOf digits = n.natAbs

/-- A minus sign stands in front of a negative number, and no sign in front of any other. -/
def IsDecimalForm (n : ℤ) (text : Bytes) : Prop :=
  ∃ digits, IsDecimal n digits ∧ text = if n < 0 then 0x2D :: digits else digits

/-! Digits as bytes against digits as characters. -/

theorem encode_cons_of_ascii {c : Char} (ascii : c.toNat ≤ 127) (text : List Char) :
    Utf8.encode (c :: text) = UInt8.ofNat c.toNat :: Utf8.encode text := by
  rw [Utf8.encode, List.flatMap_cons, Utf8.encodeChar_of_ascii ascii]
  rfl

theorem encode_plus (text : List Char) : Utf8.encode ('+' :: text) = 0x2B :: Utf8.encode text :=
  encode_cons_of_ascii (by decide) text

theorem encode_minus (text : List Char) : Utf8.encode ('-' :: text) = 0x2D :: Utf8.encode text :=
  encode_cons_of_ascii (by decide) text

theorem toNat_ofNat_of_digit {c : Char} (digit : c.isDigit = true) :
    (UInt8.ofNat c.toNat).toNat = c.toNat := by
  have range := Decimal.toNat_of_isDigit digit
  exact UInt8.toNat_ofNat_of_lt' (range.2.trans_lt (by decide))

theorem numberOf_cons (b : UInt8) (digits : Bytes) :
    numberOf (b :: digits) = 10 ^ digits.length * (b.toNat - 0x30) + numberOf digits := by
  rw [numberOf, List.reverse_cons, List.map_append, Nat.ofDigits_append, List.length_map,
    List.length_reverse, List.map_singleton, Nat.ofDigits_singleton, numberOf, Nat.add_comm]

theorem length_encode_of_digits {text : List Char} (all : ∀ c ∈ text, c.isDigit = true) :
    (Utf8.encode text).length = text.length := by
  induction text with
  | nil => rfl
  | cons c text ih =>
    obtain ⟨first, others⟩ := List.forall_mem_cons.mp all
    have ascii := (Decimal.toNat_of_isDigit first).2.trans (by decide : 0x39 ≤ 127)
    rw [encode_cons_of_ascii ascii, List.length_cons, List.length_cons, ih others]

theorem numberOf_encode {text : List Char} (all : ∀ c ∈ text, c.isDigit = true) :
    numberOf (Utf8.encode text) = Nat.ofDigitChars 10 text 0 := by
  induction text with
  | nil => rfl
  | cons c text ih =>
    obtain ⟨first, others⟩ := List.forall_mem_cons.mp all
    have ascii := (Decimal.toNat_of_isDigit first).2.trans (by decide : 0x39 ≤ 127)
    rw [encode_cons_of_ascii ascii, numberOf_cons, length_encode_of_digits others, ih others,
      toNat_ofNat_of_digit first, Nat.ofDigitChars_cons, Nat.mul_zero, Nat.zero_add]
    exact Nat.ofDigitChars_eq_ofDigitChars_zero.symm

theorem IsDigits.isNumber_encode {text : List Char} (digits : IsDigits text) :
    IsNumber (Utf8.encode text) := by
  obtain ⟨some, all⟩ := digits
  constructor
  · intro empty
    have length := length_encode_of_digits all
    rw [empty] at length
    exact some (List.eq_nil_of_length_eq_zero length.symm)
  · intro b member
    obtain ⟨c, inside, byte⟩ := List.mem_flatMap.mp member
    have range := Decimal.toNat_of_isDigit (all c inside)
    rw [Utf8.encodeChar_of_ascii (range.2.trans (by decide)), List.mem_singleton] at byte
    rw [byte, toNat_ofNat_of_digit (all c inside)]
    exact range

theorem exists_digit {b : UInt8} (low : 0x30 ≤ b.toNat) (high : b.toNat ≤ 0x39) :
    ∃ c : Char, c.isDigit = true ∧ c.toNat = b.toNat := by
  have digits : ∀ n ∈ List.range' 0x30 10, (Char.ofNat n).isDigit = true ∧ (Char.ofNat n).toNat = n := by
    decide
  exact ⟨_, digits b.toNat (List.mem_range'_1.mpr ⟨low, Nat.lt_succ_of_le high⟩)⟩

theorem IsNumber.exists_digits {digits : Bytes} (number : IsNumber digits) :
    ∃ text, IsDigits text ∧ digits = Utf8.encode text := by
  obtain ⟨some, range⟩ := number
  have spelled : ∃ text : List Char, (∀ c ∈ text, c.isDigit = true) ∧ digits = Utf8.encode text := by
    clear some
    induction digits with
    | nil => exact ⟨[], List.forall_mem_nil _, rfl⟩
    | cons b digits ih =>
      obtain ⟨first, others⟩ := List.forall_mem_cons.mp range
      obtain ⟨c, digit, code⟩ := exists_digit first.1 first.2
      obtain ⟨text, all, rfl⟩ := ih others
      refine ⟨c :: text, List.forall_mem_cons.mpr ⟨digit, all⟩, ?_⟩
      rw [encode_cons_of_ascii (code ▸ first.2.trans (by decide)), code, UInt8.ofNat_toNat]
  obtain ⟨text, all, rfl⟩ := spelled
  refine ⟨text, ⟨?_, all⟩, rfl⟩
  rintro rfl
  exact some rfl

/-! The reader of integers against the tokens that spell one. -/

theorem integer?_of_sign {sign digits : List Char} {negative : Bool} (signed : Sign sign negative)
    (isDigits : IsDigits digits) :
    Decimal.integer? (sign ++ digits) = some (if negative then -(Nat.ofDigitChars 10 digits 0 : ℤ)
      else Nat.ofDigitChars 10 digits 0) := by
  have split := signed.splitSign (Decimal.splitSign_of_digits (List.all_eq_true.mpr isDigits.2))
  rw [integer?_eq_some_iff, split]
  exact ⟨_, natural?_eq_some_iff.mpr ⟨isDigits, rfl⟩, rfl⟩

theorem SpellsInteger.exists_text {token : Bytes} {n : ℤ} (spelled : SpellsInteger token n) :
    ∃ text, token = Utf8.encode text ∧ Decimal.integer? text = some n := by
  cases spelled with
  | unsigned number =>
    obtain ⟨digits, isDigits, rfl⟩ := number.exists_digits
    exact ⟨digits, rfl, numberOf_encode isDigits.2 ▸ integer?_of_sign .absent isDigits⟩
  | plus number =>
    obtain ⟨digits, isDigits, rfl⟩ := number.exists_digits
    exact ⟨'+' :: digits, (encode_plus digits).symm,
      numberOf_encode isDigits.2 ▸ integer?_of_sign .plus isDigits⟩
  | minus number =>
    obtain ⟨digits, isDigits, rfl⟩ := number.exists_digits
    exact ⟨'-' :: digits, (encode_minus digits).symm,
      numberOf_encode isDigits.2 ▸ integer?_of_sign .minus isDigits⟩

theorem spellsInteger_of_integer? {text : List Char} {n : ℤ} (read : Decimal.integer? text = some n) :
    SpellsInteger (Utf8.encode text) n := by
  obtain ⟨sign, signed, split⟩ := exists_sign text
  obtain ⟨m, natural, value⟩ := integer?_eq_some_iff.mp read
  obtain ⟨isDigits, rfl⟩ := natural?_eq_some_iff.mp natural
  rw [split, ← value]
  generalize (Decimal.splitSign text).2 = digits at isDigits
  generalize (Decimal.splitSign text).1 = negative at signed
  rw [← numberOf_encode isDigits.2]
  cases signed with
  | absent => exact .unsigned isDigits.isNumber_encode
  | plus =>
    rw [List.singleton_append, encode_plus]
    exact .plus isDigits.isNumber_encode
  | minus =>
    rw [List.singleton_append, encode_minus]
    exact .minus isDigits.isNumber_encode

theorem spellsInteger_encode {text : List Char} {n : ℤ} :
    SpellsInteger (Utf8.encode text) n ↔ Decimal.integer? text = some n := by
  constructor
  · intro spelled
    obtain ⟨text', same, read⟩ := spelled.exists_text
    have decoded := congrArg Utf8.decode? same
    rw [Utf8.decode?_encode, Utf8.decode?_encode, Option.some.injEq] at decoded
    rwa [decoded]
  · exact spellsInteger_of_integer?

theorem int64?_eq_some_iff {text : List Char} {v : Int64} :
    Decimal.int64? text = some v ↔ Decimal.integer? text = some v.toInt := by
  rw [Decimal.int64?]
  cases Decimal.integer? text with
  | none => simp
  | some n =>
    simp only [Option.ite_none_right_eq_some, Option.some.injEq]
    constructor
    · rintro ⟨⟨low, high⟩, rfl⟩
      rw [Int64.toInt_minValue] at low
      rw [Int64.toInt_maxValue] at high
      exact (Int64.toInt_ofInt_of_le low (by omega)).symm
    · rintro rfl
      exact ⟨⟨v.minValue_le_toInt, v.toInt_le⟩, v.ofInt_toInt⟩

/-- An integer of 64 bits is read from the tokens that spell it. -/
theorem numeral?_int64_eq_some_iff {token : Bytes} {v : Int64} :
    numeral? Decimal.int64? token = some v ↔ SpellsInteger token v.toInt := by
  simp only [numeral?, Option.bind_eq_some_iff, Utf8.decode?_eq_some_iff, int64?_eq_some_iff]
  constructor
  · rintro ⟨text, rfl, read⟩
    exact spellsInteger_of_integer? read
  · exact SpellsInteger.exists_text

theorem numeral?_int64_eq_none_iff {token : Bytes} :
    numeral? Decimal.int64? token = none ↔ ∀ n, SpellsInteger token n → n < -2 ^ 63 ∨ 2 ^ 63 - 1 < n := by
  simp only [Option.eq_none_iff_forall_ne_some, ne_eq, numeral?_int64_eq_some_iff]
  constructor
  · intro malformed n spelled
    by_contra! fits
    have number : (Int64.ofInt n).toInt = n := Int64.toInt_ofInt_of_le fits.1 (by omega)
    exact malformed _ (number ▸ spelled)
  · intro misfit v spelled
    have low := v.le_toInt
    have high := v.toInt_lt
    have := misfit _ spelled
    omega

/-! The text of an integer. -/

theorem isDigits_toDigits (m : ℕ) : IsDigits (Nat.toDigits 10 m) :=
  ⟨Nat.toDigits_ne_nil, List.all_eq_true.mp (Decimal.all_isDigit_toDigits m)⟩

theorem isDecimal_toDigits {n : ℤ} {m : ℕ} (magnitude : n.natAbs = m) :
    IsDecimal n (Utf8.encode (Nat.toDigits 10 m)) where
  number := (isDigits_toDigits m).isNumber_encode
  unfilled := by
    intro zero
    obtain ⟨c, rest, digits⟩ := List.exists_cons_of_ne_nil (Nat.toDigits_ne_nil (n := m) (b := 10))
    have digit := (isDigits_toDigits m).2 c (digits ▸ List.mem_cons_self)
    have ascii := (Decimal.toNat_of_isDigit digit).2.trans (by decide : 0x39 ≤ 127)
    rw [digits, encode_cons_of_ascii ascii, List.head?_cons, Option.some.injEq, ← UInt8.toNat_inj,
      toNat_ofNat_of_digit digit] at zero
    have first : c = '0' := Char.toNat_inj.mp zero
    have none : m = 0 := head?_toDigits (by rw [digits, first]; rfl)
    rw [none]
    rfl
  value := by
    rw [numberOf_encode (isDigits_toDigits m).2, Nat.ofDigitChars_ten_toDigits, magnitude]

theorem isDecimalForm_toString (n : ℤ) : IsDecimalForm n (Utf8.ofString (toString n)) := by
  cases n with
  | ofNat m =>
    refine ⟨_, isDecimal_toDigits rfl, ?_⟩
    have nonneg : ¬ Int.ofNat m < 0 := Int.not_lt.mpr (Int.natCast_nonneg m)
    rw [Utf8.ofString, Decimal.toList_toString_ofNat, if_neg nonneg]
    rfl
  | negSucc m =>
    refine ⟨_, isDecimal_toDigits rfl, ?_⟩
    rw [Utf8.ofString, Decimal.toList_toString_negSucc, if_pos (Int.negSucc_lt_zero m), encode_minus]
    rfl

end ScriptHost.Numeral

namespace ScriptHost

open Utf8 (Bytes)
open Numeral (SpellsInteger IsDecimalForm)

theorem parseToken_int_eq_some_iff {heap : Heap} {token : Bytes} {v : Int64} :
    parseToken heap .int token = (.ok (some (.int v)), heap) ↔ SpellsInteger token v.toInt := by
  rw [← Numeral.numeral?_int64_eq_some_iff]
  simp [parseToken]

theorem parseToken_int_eq_none_iff {heap : Heap} {token : Bytes} :
    parseToken heap .int token = (.ok none, heap) ↔ numeral? Decimal.int64? token = none := by
  simp [parseToken]

theorem parseToken_bool_eq_none_iff {heap : Heap} {token : Bytes} :
    parseToken heap .bool token = (.ok none, heap) ↔ numeral? Decimal.int64? token = none := by
  simp [parseToken]

theorem parseToken_bool_eq_some_iff {heap : Heap} {token : Bytes} {b : Bool} :
    parseToken heap .bool token = (.ok (some (.bool b)), heap) ↔
      ∃ v : Int64, SpellsInteger token v.toInt ∧ (b = true ↔ v.toInt ≠ 0) := by
  have truth : ∀ v : Int64, (v != 0) = b ↔ (b = true ↔ v.toInt ≠ 0) := by
    intro v
    rw [Bool.eq_iff_iff, bne_iff_ne, ne_eq, ← Int64.toInt_inj, Int64.toInt_zero]
    exact iff_comm
  simp only [← Numeral.numeral?_int64_eq_some_iff, ← truth]
  simp [parseToken]

/-- Under `i` a token is read as the integer that it spells, if this one fits 64 bits, and is malformed
otherwise. Under `b` the same tokens are read, as true where the integer is not zero. The text of an
integer is its decimal form and is read as that integer. -/
theorem parseToken_integer (heap : Heap) :
    (∀ token (v : Int64),
      parseToken heap .int token = (.ok (some (.int v)), heap) ↔ SpellsInteger token v.toInt) ∧
    (∀ token, parseToken heap .int token = (.ok none, heap) ↔
      ∀ n, SpellsInteger token n → n < -2 ^ 63 ∨ 2 ^ 63 - 1 < n) ∧
    (∀ token, Utf8.decode? token = none → parseToken heap .int token = (.ok none, heap)) ∧
    (∀ token b, parseToken heap .bool token = (.ok (some (.bool b)), heap) ↔
      ∃ v : Int64, SpellsInteger token v.toInt ∧ (b = true ↔ v.toInt ≠ 0)) ∧
    (∀ token, parseToken heap .bool token = (.ok none, heap) ↔
      parseToken heap .int token = (.ok none, heap)) ∧
    ∀ n : Int64, ∃ text, IsDecimalForm n.toInt text ∧
      (∀ line, writeItem heap line .int (.int n) = (.ok (), line ++ text)) ∧
      parseToken heap .int text = (.ok (some (.int n)), heap) := by
  refine ⟨fun token v => parseToken_int_eq_some_iff, fun token => ?_, fun token binary => ?_,
    fun token b => parseToken_bool_eq_some_iff, fun token => ?_, fun n => ?_⟩
  · rw [parseToken_int_eq_none_iff, Numeral.numeral?_int64_eq_none_iff]
  · rw [parseToken_int_eq_none_iff, numeral?, binary, Option.bind_none]
  · rw [parseToken_bool_eq_none_iff, parseToken_int_eq_none_iff]
  · have read : SpellsInteger (Utf8.ofString (toString n.toInt)) n.toInt :=
      Numeral.spellsInteger_encode.mpr (Decimal.integer?_toString n.toInt)
    exact ⟨_, Numeral.isDecimalForm_toString n.toInt, fun line => rfl, parseToken_int_eq_some_iff.mpr read⟩

/-- Zeros may lead, and the least integer is one further from zero than the greatest. -/
theorem parseToken_integer_limits :
    let heap := Heap.empty .addressable none
    parseToken heap .int (Utf8.ofString "+007") = (.ok (some (.int 7)), heap) ∧
      parseToken heap .bool (Utf8.ofString "-0") = (.ok (some (.bool false)), heap) ∧
      parseToken heap .int (Utf8.ofString "-9223372036854775808") =
        (.ok (some (.int Int64.minValue)), heap) ∧
      parseToken heap .int (Utf8.ofString "-9223372036854775809") = (.ok none, heap) ∧
      parseToken heap .int (Utf8.ofString "9223372036854775808") = (.ok none, heap) ∧
      parseToken heap .bool (Utf8.ofString "9223372036854775808") = (.ok none, heap) ∧
      parseToken heap .int (Utf8.ofString "-") = (.ok none, heap) ∧
      parseToken heap .int [0x37, 0xFF] = (.ok none, heap) := by
  intro heap
  obtain ⟨reads, malformed, binary, truth, same, -⟩ := parseToken_integer heap
  have spells : ∀ text (v : Int64), Decimal.integer? text = some v.toInt →
      SpellsInteger (Utf8.encode text) v.toInt :=
    fun _ _ => Numeral.spellsInteger_encode.mpr
  have beyond : ∀ text n, Decimal.integer? text = some n → n < -2 ^ 63 ∨ 2 ^ 63 - 1 < n →
      parseToken heap .int (Utf8.encode text) = (.ok none, heap) := by
    intro text n number far
    refine (malformed _).mpr fun m spelled => ?_
    rw [Numeral.spellsInteger_encode, number, Option.some.injEq] at spelled
    exact spelled ▸ far
  have above := beyond "9223372036854775808".toList 9223372036854775808 (by decide) (by decide)
  have sign : Decimal.integer? "-".toList = none := by decide
  refine ⟨(reads _ 7).mpr (spells _ 7 (by decide)),
    (truth _ false).mpr ⟨0, spells _ 0 (by decide), by decide⟩,
    (reads _ Int64.minValue).mpr (spells _ Int64.minValue (by decide)),
    beyond _ (-9223372036854775809) (by decide) (by decide), above, (same _).mpr above,
    (malformed _).mpr fun n spelled => ?_, binary _ ?_⟩
  · rw [Utf8.ofString, Numeral.spellsInteger_encode, sign] at spelled
    cases spelled
  · decide +kernel

end ScriptHost
