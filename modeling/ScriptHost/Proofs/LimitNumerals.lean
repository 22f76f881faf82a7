import Mathlib.Data.List.DropRight
import ScriptHost.LimitSetting
import ScriptHost.Proofs.IntegerNumerals

/-! Which bytes set a limit, and which number they set. White space around a numeral is taken away; what
remains has to be digits, with a plus sign or without one, and their number has to fit 64 bits. Zero and all
other bytes leave the number of objects unbounded. -/
namespace ScriptHost

open Utf8 (Bytes)
open Numeral (IsNumber IsDigits numberOf)

/-- The code points with the Unicode property White_Space. -/
def whiteSpacePoints : List ℕ :=
  [0x09, 0x0A, 0x0B, 0x0C, 0x0D, 0x20, 0x85, 0xA0, 0x1680, 0x2000, 0x2001, 0x2002, 0x2003, 0x2004, 0x2005,
    0x2006, 0x2007, 0x2008, 0x2009, 0x200A, 0x2028, 0x2029, 0x202F, 0x205F, 0x3000]

/-- Nothing but white space. -/
def IsBlank (text : List Char) : Prop := ∀ c ∈ text, c.toNat ∈ whiteSpacePoints

instance (text : List Char) : Decidable (IsBlank text) := List.decidableBAll _ _

/-- What remains of a text when the white space on both ends is taken away. -/
structure IsTrimmed (core text : List Char) : Prop where
  surrounded : ∃ front behind, IsBlank front ∧ IsBlank behind ∧ text = front ++ core ++ behind
  first : ∀ c ∈ core.head?, c.toNat ∉ whiteSpacePoints
  last : ∀ c ∈ core.getLast?, c.toNat ∉ whiteSpacePoints

/-- Digits, which may have a plus sign in front of them. -/
inductive SpellsNatural : Bytes → ℕ → Prop
  | unsigned {digits : Bytes} (number : IsNumber digits) : SpellsNatural digits (numberOf digits)
  | plus {digits : Bytes} (number : IsNumber digits) : SpellsNatural (0x2B :: digits) (numberOf digits)

namespace LimitSetting

/-- The bytes of a text that is a numeral, the white space around it apart. -/
def Spells (bytes : Bytes) (n : ℕ) : Prop :=
  ∃ text core, bytes = Utf8.encode text ∧ IsTrimmed core text ∧ SpellsNatural (Utf8.encode core) n

end LimitSetting

/-! Trimming. -/

theorem whiteSpacePoints_eq :
    whiteSpacePoints =
      whiteSpace.ranges.flatMap fun (low, high) => List.range' low (high + 1 - low) := by
  decide

theorem isWhiteSpace_iff {c : Char} : isWhiteSpace c = true ↔ c.toNat ∈ whiteSpacePoints := by
  rw [isWhiteSpace, CodePoints.contains, List.any_eq_true, whiteSpacePoints_eq, List.mem_flatMap]
  refine exists_congr fun range => and_congr_right fun _ => ?_
  rw [Bool.and_eq_true, decide_eq_true_eq, decide_eq_true_eq, List.mem_range'_1]
  omega

theorem isWhiteSpace_eq_false_iff {c : Char} : isWhiteSpace c = false ↔ c.toNat ∉ whiteSpacePoints := by
  rw [← isWhiteSpace_iff, Bool.not_eq_true]

theorem isBlank_iff {text : List Char} : IsBlank text ↔ ∀ c ∈ text, isWhiteSpace c = true := by
  simp only [IsBlank, isWhiteSpace_iff]

theorem trim_eq (text : List Char) :
    trim text = (text.dropWhile isWhiteSpace).rdropWhile isWhiteSpace := rfl

theorem not_of_head?_dropWhile {p : Char → Bool} {text : List Char} {c : Char}
    (head : c ∈ (text.dropWhile p).head?) : p c = false := by
  have stop := List.head?_dropWhile_not p text
  rwa [Option.mem_def.mp head] at stop

theorem dropWhile_append_of_stop {p : Char → Bool} {front core : List Char}
    (all : ∀ c ∈ front, p c = true) (stop : ∀ c ∈ core.head?, p c = false) :
    (front ++ core).dropWhile p = core := by
  have cut := span_append_of_stop all stop
  rw [List.span_eq_takeWhile_dropWhile] at cut
  exact (Prod.mk.inj cut).2

theorem isTrimmed_trim (text : List Char) : IsTrimmed (trim text) text where
  surrounded := by
    refine ⟨text.takeWhile isWhiteSpace, (text.dropWhile isWhiteSpace).rtakeWhile isWhiteSpace, ?_, ?_, ?_⟩
    · exact isBlank_iff.mpr fun c member => List.mem_takeWhile_imp member
    · exact isBlank_iff.mpr fun c member => List.mem_rtakeWhile_imp member
    · rw [trim_eq, List.append_assoc, List.rdropWhile_append_rtakeWhile, List.takeWhile_append_dropWhile]
  first := by
    intro c head
    obtain ⟨behind, split⟩ := List.rdropWhile_prefix isWhiteSpace (text.dropWhile isWhiteSpace)
    obtain ⟨rest, front⟩ := List.head?_eq_some_iff.mp head
    rw [← trim_eq, front] at split
    have first : c ∈ (text.dropWhile isWhiteSpace).head? := split ▸ rfl
    exact isWhiteSpace_eq_false_iff.mp (not_of_head?_dropWhile first)
  last := by
    intro c last
    rw [trim, List.getLast?_reverse] at last
    exact isWhiteSpace_eq_false_iff.mp (not_of_head?_dropWhile last)

/-- No other part of a text is what trimming leaves. -/
theorem trim_of_isTrimmed {core text : List Char} (trimmed : IsTrimmed core text) : trim text = core := by
  obtain ⟨⟨front, behind, blank, blank', rfl⟩, first, last⟩ := trimmed
  rw [isBlank_iff] at blank blank'
  simp only [← isWhiteSpace_eq_false_iff] at first last
  cases core with
  | nil =>
    have empty : (front ++ [] ++ behind).dropWhile isWhiteSpace = [] := by
      rw [List.append_nil]
      exact List.dropWhile_eq_nil_iff.mpr (List.forall_mem_append.mpr ⟨blank, blank'⟩)
    rw [trim, empty]
    rfl
  | cons c core =>
    have opened : (front ++ c :: core ++ behind).dropWhile isWhiteSpace = c :: core ++ behind := by
      rw [List.append_assoc]
      exact dropWhile_append_of_stop blank first
    rw [trim, opened, List.reverse_append, dropWhile_append_of_stop, List.reverse_reverse]
    · exact fun d member => blank' d (List.mem_reverse.mp member)
    · rwa [List.head?_reverse]

theorem trim_eq_iff {core text : List Char} : trim text = core ↔ IsTrimmed core text := by
  constructor
  · rintro rfl
    exact isTrimmed_trim text
  · exact trim_of_isTrimmed

theorem trim_surrounded {front behind : List Char} (blank : IsBlank front) (blank' : IsBlank behind)
    (text : List Char) : trim (front ++ text ++ behind) = trim text := by
  obtain ⟨⟨before, after, white, white', split⟩, first, last⟩ := isTrimmed_trim text
  apply trim_of_isTrimmed
  refine ⟨⟨front ++ before, after ++ behind, List.forall_mem_append.mpr ⟨blank, white⟩,
    List.forall_mem_append.mpr ⟨white', blank'⟩, ?_⟩, first, last⟩
  nth_rewrite 1 [split]
  simp only [List.append_assoc]

theorem trim_of_blank {text : List Char} (blank : IsBlank text) : trim text = [] := by
  apply trim_of_isTrimmed
  refine ⟨⟨text, [], blank, List.forall_mem_nil _, ?_⟩, ?_, ?_⟩
  · rw [List.append_nil, List.append_nil]
  · rintro c ⟨⟩
  · rintro c ⟨⟩

theorem trim_of_no_blank {text : List Char} (visible : ∀ c ∈ text, c.toNat ∉ whiteSpacePoints) :
    trim text = text := by
  apply trim_of_isTrimmed
  refine ⟨⟨[], [], List.forall_mem_nil _, List.forall_mem_nil _, ?_⟩, ?_, ?_⟩
  · rw [List.nil_append, List.append_nil]
  · exact fun c head => visible c (List.mem_of_mem_head? head)
  · exact fun c last => visible c (List.mem_of_getLast? last)

/-! Numerals. -/

namespace Numeral

theorem nat64?_of_sign {sign digits : List Char} (signed : Sign sign false) (isDigits : IsDigits digits) :
    Decimal.nat64? (sign ++ digits) = (some (Nat.ofDigitChars 10 digits 0)).filter (· < UInt64.size) := by
  have natural : Decimal.natural? digits = some (Nat.ofDigitChars 10 digits 0) :=
    natural?_eq_some_iff.mpr ⟨isDigits, rfl⟩
  cases signed with
  | plus => rw [List.singleton_append, Decimal.nat64?, natural]
  | absent =>
    rw [List.nil_append]
    unfold Decimal.nat64?
    split
    · have plus := isDigits.2 '+' List.mem_cons_self
      cases plus
    · simp only [natural]

theorem exists_sign_of_nat64? {text : List Char} {n : ℕ} (read : Decimal.nat64? text = some n) :
    ∃ sign digits, Sign sign false ∧ IsDigits digits ∧ text = sign ++ digits := by
  unfold Decimal.nat64? at read
  have natural := (Option.filter_eq_some_iff.mp read).1
  split at natural
  · next digits => exact ⟨_, digits, .plus, (natural?_eq_some_iff.mp natural).1, rfl⟩
  · exact ⟨_, text, .absent, (natural?_eq_some_iff.mp natural).1, rfl⟩

theorem spellsNatural_of_sign {sign digits : List Char} (signed : Sign sign false)
    (isDigits : IsDigits digits) :
    SpellsNatural (Utf8.encode (sign ++ digits)) (Nat.ofDigitChars 10 digits 0) := by
  rw [← numberOf_encode isDigits.2]
  cases signed with
  | absent => exact .unsigned isDigits.isNumber_encode
  | plus =>
    rw [List.singleton_append, encode_plus]
    exact .plus isDigits.isNumber_encode

theorem exists_sign_of_spellsNatural {token : Bytes} {n : ℕ} (spelled : SpellsNatural token n) :
    ∃ sign digits, Sign sign false ∧ IsDigits digits ∧ token = Utf8.encode (sign ++ digits) ∧
      Nat.ofDigitChars 10 digits 0 = n := by
  cases spelled with
  | unsigned number =>
    obtain ⟨digits, isDigits, rfl⟩ := number.exists_digits
    exact ⟨[], digits, .absent, isDigits, rfl, (numberOf_encode isDigits.2).symm⟩
  | plus number =>
    obtain ⟨digits, isDigits, rfl⟩ := number.exists_digits
    exact ⟨['+'], digits, .plus, isDigits, (encode_plus digits).symm, (numberOf_encode isDigits.2).symm⟩

theorem nat64?_of_spellsNatural {text : List Char} {n : ℕ}
    (spelled : SpellsNatural (Utf8.encode text) n) :
    Decimal.nat64? text = (some n).filter (· < UInt64.size) := by
  obtain ⟨sign, digits, signed, isDigits, same, rfl⟩ := exists_sign_of_spellsNatural spelled
  rw [Utf8.encode_injective same]
  exact nat64?_of_sign signed isDigits

theorem nat64?_eq_some_iff {text : List Char} {n : ℕ} :
    Decimal.nat64? text = some n ↔ SpellsNatural (Utf8.encode text) n ∧ n < 2 ^ 64 := by
  constructor
  · intro read
    obtain ⟨sign, digits, signed, isDigits, rfl⟩ := exists_sign_of_nat64? read
    rw [nat64?_of_sign signed isDigits, Option.filter_eq_some_iff, Option.some.injEq,
      decide_eq_true_eq] at read
    obtain ⟨rfl, small⟩ := read
    exact ⟨spellsNatural_of_sign signed isDigits, small⟩
  · rintro ⟨spelled, small⟩
    rw [nat64?_of_spellsNatural spelled, Option.filter_eq_some_iff, decide_eq_true_eq]
    exact ⟨rfl, small⟩

/-- Only digits are read, and a plus sign where it comes first. -/
theorem nat64?_of_stray {front behind : List Char} {c : Char} (other : c.isDigit = false)
    (inside : c = '+' → front ≠ []) : Decimal.nat64? (front ++ c :: behind) = none := by
  rw [Option.eq_none_iff_forall_ne_some]
  intro n read
  obtain ⟨sign, digits, signed, ⟨-, all⟩, split⟩ := exists_sign_of_nat64? read
  have stray : c ∉ digits := by
    intro member
    rw [all c member] at other
    cases other
  cases signed with
  | absent =>
    rw [List.nil_append] at split
    exact stray (split ▸ List.mem_append_cons_self)
  | plus =>
    rw [List.singleton_append] at split
    cases front with
    | nil => exact inside (List.cons.inj split).1 rfl
    | cons d front =>
      have behind : front ++ c :: _ = digits := (List.cons.inj split).2
      exact stray (behind ▸ List.mem_append_cons_self)

theorem ofDigitChars_zeros_append (k : ℕ) (digits : List Char) :
    Nat.ofDigitChars 10 (List.replicate k '0' ++ digits) 0 = Nat.ofDigitChars 10 digits 0 := by
  induction k with
  | zero => rfl
  | succ k ih =>
    rw [List.replicate_succ, List.cons_append, Nat.ofDigitChars_cons]
    exact ih

theorem IsDigits.zeros_append {digits : List Char} (isDigits : IsDigits digits) (k : ℕ) :
    IsDigits (List.replicate k '0' ++ digits) := by
  refine ⟨List.append_ne_nil_of_right_ne_nil _ isDigits.1, List.forall_mem_append.mpr ⟨?_, isDigits.2⟩⟩
  intro c member
  rw [List.eq_of_mem_replicate member]
  rfl

theorem trim_of_sign {sign digits : List Char} (signed : Sign sign false) (isDigits : IsDigits digits) :
    trim (sign ++ digits) = sign ++ digits := by
  have visible : ∀ c ∈ digits, c.toNat ∉ whiteSpacePoints := by
    intro c member
    have range := Decimal.toNat_of_isDigit (isDigits.2 c member)
    simp only [whiteSpacePoints, List.mem_cons, List.not_mem_nil, or_false]
    omega
  apply trim_of_no_blank
  cases signed with
  | absent => exact visible
  | plus => exact List.forall_mem_cons.mpr ⟨by decide, visible⟩

end Numeral

/-! The setting. -/

namespace LimitSetting

theorem maxObjects_parse (raw : String) :
    (parse raw).maxObjects = (Decimal.nat64? (trim raw.toList)).filter (· ≠ 0) := by
  rw [parse]
  cases Decimal.nat64? (trim raw.toList) with
  | none => rfl
  | some count =>
    cases count with
    | zero => rfl
    | succ count => rfl

theorem maxObjects_encode (text : List Char) :
    (ofBytes? (some (Utf8.encode text))).maxObjects = (Decimal.nat64? (trim text)).filter (· ≠ 0) := by
  rw [ofBytes?, Option.bind_some, Utf8.decode?_encode, Option.map_some, ofText?, maxObjects_parse,
    String.toList_ofList]

theorem maxObjects_of_binary {bytes : Bytes} (binary : Utf8.decode? bytes = none) :
    (ofBytes? (some bytes)).maxObjects = none := by
  rw [ofBytes?, Option.bind_some, binary]
  rfl

theorem spells_encode_iff {text : List Char} {n : ℕ} :
    Spells (Utf8.encode text) n ↔ SpellsNatural (Utf8.encode (trim text)) n := by
  constructor
  · rintro ⟨text', core, same, trimmed, spelled⟩
    rwa [Utf8.encode_injective same, trim_of_isTrimmed trimmed]
  · intro spelled
    exact ⟨text, trim text, rfl, isTrimmed_trim text, spelled⟩

theorem spells_of_sign {sign digits : List Char} (signed : Numeral.Sign sign false)
    (isDigits : IsDigits digits) :
    Spells (Utf8.encode (sign ++ digits)) (Nat.ofDigitChars 10 digits 0) := by
  rw [spells_encode_iff, Numeral.trim_of_sign signed isDigits]
  exact Numeral.spellsNatural_of_sign signed isDigits

theorem maxObjects_of_spells {bytes : Bytes} {n : ℕ} (spelled : Spells bytes n) :
    (ofBytes? (some bytes)).maxObjects = ((some n).filter (· < UInt64.size)).filter (· ≠ 0) := by
  obtain ⟨text, core, rfl, trimmed, natural⟩ := spelled
  rw [maxObjects_encode, trim_of_isTrimmed trimmed, Numeral.nat64?_of_spellsNatural natural]

theorem maxObjects_of_out_of_bounds {bytes : Bytes} {n : ℕ} (spelled : Spells bytes n)
    (out : n = 0 ∨ 2 ^ 64 ≤ n) : (ofBytes? (some bytes)).maxObjects = none := by
  rw [maxObjects_of_spells spelled]
  rcases out with rfl | large
  · rfl
  · have misfit : ¬ n < UInt64.size := Nat.not_lt.mpr large
    rw [Option.filter_some, decide_eq_false misfit]
    rfl

theorem maxObjects_eq_some_iff {bytes : Bytes} {n : ℕ} :
    (ofBytes? (some bytes)).maxObjects = some n ↔ Spells bytes n ∧ 1 ≤ n ∧ n ≤ 2 ^ 64 - 1 := by
  have range : n < 2 ^ 64 ∧ n ≠ 0 ↔ 1 ≤ n ∧ n ≤ 2 ^ 64 - 1 := by omega
  cases read : Utf8.decode? bytes with
  | some text =>
    obtain rfl := Utf8.decode?_eq_some_iff.mp read
    rw [maxObjects_encode, Option.filter_eq_some_iff, Numeral.nat64?_eq_some_iff, decide_eq_true_eq,
      and_assoc, range, spells_encode_iff]
  | none =>
    rw [maxObjects_of_binary read]
    simp only [reduceCtorEq, false_iff]
    rintro ⟨⟨text, -, rfl, -⟩, -⟩
    rw [Utf8.decode?_encode] at read
    cases read

theorem maxObjects_ne_zero (raw : Option Bytes) : (ofBytes? raw).maxObjects ≠ some 0 := by
  cases raw with
  | none => exact nofun
  | some bytes =>
    intro zero
    have range := (maxObjects_eq_some_iff.mp zero).2
    omega

/-- A setting limits the objects where its bytes are a numeral, with white space around it or without, whose
number is positive and fits 64 bits: this number is the limit. No variable at all, bytes that are no text, a
number out of these bounds, white space alone and any character that does not belong to a numeral leave the
objects unbounded. No limit is zero, and neither white space around a setting nor zeros in front of its
digits change it. -/
theorem limit_set_by_numeral :
    (∀ bytes n, (ofBytes? (some bytes)).maxObjects = some n ↔ Spells bytes n ∧ 1 ≤ n ∧ n ≤ 2 ^ 64 - 1) ∧
    (ofBytes? none).maxObjects = none ∧
    (∀ bytes, Utf8.decode? bytes = none → (ofBytes? (some bytes)).maxObjects = none) ∧
    (∀ bytes n, Spells bytes n → n = 0 ∨ 2 ^ 64 ≤ n → (ofBytes? (some bytes)).maxObjects = none) ∧
    (∀ text, IsBlank text → (ofBytes? (some (Utf8.encode text))).maxObjects = none) ∧
    (∀ text front c behind, IsTrimmed (front ++ c :: behind) text → c.isDigit = false →
      (c = '+' → front ≠ []) → (ofBytes? (some (Utf8.encode text))).maxObjects = none) ∧
    (∀ raw, (ofBytes? raw).maxObjects ≠ some 0) ∧
    (∀ front text behind, IsBlank front → IsBlank behind →
      (ofBytes? (some (Utf8.encode (front ++ text ++ behind)))).maxObjects =
        (ofBytes? (some (Utf8.encode text))).maxObjects) ∧
    ∀ sign k digits, sign = [] ∨ sign = ['+'] → IsDigits digits →
      (ofBytes? (some (Utf8.encode (sign ++ (List.replicate k '0' ++ digits))))).maxObjects =
        (ofBytes? (some (Utf8.encode (sign ++ digits)))).maxObjects := by
  refine ⟨fun bytes n => maxObjects_eq_some_iff, rfl, fun bytes => maxObjects_of_binary,
    fun bytes n => maxObjects_of_out_of_bounds, fun text blank => ?_,
    fun text front c behind trimmed other inside => ?_, maxObjects_ne_zero,
    fun front text behind blank blank' => ?_, fun sign k digits plus isDigits => ?_⟩
  · rw [maxObjects_encode, trim_of_blank blank]
    rfl
  · rw [maxObjects_encode, trim_of_isTrimmed trimmed, Numeral.nat64?_of_stray other inside,
      Option.filter_none]
  · rw [maxObjects_encode, maxObjects_encode, trim_surrounded blank blank']
  · have signed : Numeral.Sign sign false := by
      rcases plus with rfl | rfl
      · exact .absent
      · exact .plus
    have padded := isDigits.zeros_append k
    rw [maxObjects_encode, maxObjects_encode, Numeral.trim_of_sign signed isDigits,
      Numeral.trim_of_sign signed padded, Numeral.nat64?_of_sign signed isDigits,
      Numeral.nat64?_of_sign signed padded, Numeral.ofDigitChars_zeros_append]

/-- The largest limit, with white space and zeros, and the number behind it. -/
theorem limit_set_by_numeral_once :
    let limit (text : List Char) := (ofBytes? (some (Utf8.encode text))).maxObjects
    let largest := "18446744073709551615".toList
    let beyond := "18446744073709551616".toList
    IsBlank ['\u3000', '\t'] ∧ IsBlank ['\x85'] ∧ IsDigits largest ∧
      limit (['\u3000', '\t'] ++ (['+'] ++ (List.replicate 3 '0' ++ largest)) ++ ['\x85']) =
        some 18446744073709551615 ∧
      limit beyond = none ∧ limit ['+', '0', '0'] = none ∧ limit [' ', '\u2028'] = none ∧
      limit ['1', ' ', '2'] = none ∧ limit ['-', '5'] = none ∧
      (ofBytes? (some [0x31, 0xFF])).maxObjects = none := by
  intro limit largest beyond
  obtain ⟨reads, -, binary, out, blank, stray, -, white, zeros⟩ := limit_set_by_numeral
  have front : IsBlank ['\u3000', '\t'] := by decide
  have behind : IsBlank ['\x85'] := by decide
  have digits : IsDigits largest := ⟨by decide, List.all_eq_true.mp (by decide)⟩
  have noughts : IsDigits ['0', '0'] := ⟨by decide, List.all_eq_true.mp (by decide)⟩
  have digits' : IsDigits beyond := ⟨by decide, List.all_eq_true.mp (by decide)⟩
  refine ⟨front, behind, digits, ?_, out _ _ (spells_of_sign .absent digits') (.inr (by decide)),
    out _ _ (spells_of_sign .plus noughts) (.inl (by decide)),
    blank _ (by decide), stray _ ['1'] ' ' ['2'] ?_ (by decide) (by decide),
    stray _ [] '-' ['5'] ?_ (by decide) (by decide), binary _ (by decide +kernel)⟩
  · calc
      limit _ = limit (['+'] ++ (List.replicate 3 '0' ++ largest)) := white _ _ _ front behind
      _ = limit (['+'] ++ largest) := zeros _ 3 _ (.inr rfl) digits
      _ = some 18446744073709551615 :=
        (reads _ _).mpr ⟨spells_of_sign .plus digits, by decide, by decide⟩
  · exact trim_eq_iff.mp (by decide)
  · exact trim_eq_iff.mp (by decide)

end LimitSetting
end ScriptHost
