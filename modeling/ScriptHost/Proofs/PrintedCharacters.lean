import ScriptHost.Proofs.LossyText
import ScriptHost.Proofs.PrintedItems
import ScriptHost.Proofs.ValueEncoding

/-! Characters printed by their code points. A number that is the code point of a character prints the
encoding of that character, from which the character is read again; any other number, of whatever size and
sign, prints U+FFFD. -/
namespace ScriptHost

open Utf8 (Bytes)

/-- The code points of characters: all but the surrogates. -/
def IsScalar (n : Int) : Prop := 0 ≤ n ∧ n ≤ 0x10FFFF ∧ ¬ (0xD800 ≤ n ∧ n ≤ 0xDFFF)

instance (n : Int) : Decidable (IsScalar n) := inferInstanceAs (Decidable (_ ∧ _ ∧ _))

namespace Utf8

theorem encode_singleton (c : Char) : encode [c] = encodeChar c := by
  rw [encode, List.flatMap_singleton]

theorem decode?_encodeChar (c : Char) : decode? (encodeChar c) = some [c] := by
  rw [← encode_singleton]
  exact decode?_encode [c]

theorem encodeChar_inj {c d : Char} (same : encodeChar c = encodeChar d) : c = d := by
  have read := decode?_encodeChar c
  rw [same, decode?_encodeChar] at read
  cases read
  rfl

theorem length_encodeChar (c : Char) : 1 ≤ (encodeChar c).length ∧ (encodeChar c).length ≤ 4 := by
  rw [encodeChar, String.length_utf8EncodeChar]
  exact ⟨c.utf8Size_pos, c.utf8Size_le_four⟩

theorem zero_ne_ofNat {m : Nat} (positive : 0 < m) (small : m < 256) : 0 ≠ UInt8.ofNat m := by
  intro zero
  have number := congrArg UInt8.toNat zero
  rw [UInt8.toNat_ofNat_of_lt' small, UInt8.toNat_zero] at number
  omega

/-- Only the character zero is encoded with a zero byte. -/
theorem zero_notMem_encodeChar {c : Char} (nonzero : c ≠ '\x00') : 0 ∉ encodeChar c := by
  have positive : 0 < c.toNat := Nat.pos_of_ne_zero fun zero => nonzero (Char.toNat_inj.mp zero)
  have bytes := encodeChar_ofNat c.valid
  rw [← Char.toNat, Char.ofNat_toNat] at bytes
  rw [bytes]
  split_ifs <;>
    simp (disch := omega) only [List.mem_cons, List.not_mem_nil, zero_ne_ofNat, or_self, not_false_eq_true]

end Utf8

variable {heap : Heap} {n : Int64} {bits : UInt64}

theorem isScalar_iff {n : Int} : IsScalar n ↔ 0 ≤ n ∧ n.toNat.isValidChar := by
  simp only [IsScalar, Nat.isValidChar]
  omega

theorem isScalar_toNat (c : Char) : IsScalar c.toNat := isScalar_iff.mpr ⟨Int.natCast_nonneg _, c.valid⟩

theorem toNat_charOfCodePoint (scalar : IsScalar n.toInt) : ((charOfCodePoint n).toNat : Int) = n.toInt := by
  obtain ⟨nonnegative, valid⟩ := isScalar_iff.mp scalar
  have point : (charOfCodePoint n).toNat = n.toInt.toNat := by
    rw [charOfCodePoint, if_pos ⟨nonnegative, valid⟩]
    exact Utf8.val_toNat_ofNat valid
  omega

theorem charOfCodePoint_of_not_scalar (other : ¬ IsScalar n.toInt) : charOfCodePoint n = '\uFFFD' :=
  if_neg (mt isScalar_iff.mpr other)

theorem charOfCodePoint_of_char {c : Char} (point : n.toInt = c.toNat) : charOfCodePoint n = c := by
  have number := toNat_charOfCodePoint (point ▸ isScalar_toNat c)
  exact Char.toNat_inj.mp (by omega)

theorem printsAs_char (heap : Heap) (n : Int64) :
    PrintsAs heap (.char, .int n) (Utf8.encodeChar (charOfCodePoint n)) :=
  printsAs_iff.mpr rfl

/-! The word of a raw value as a number with a sign. -/

theorem toInt_toInt64 (bits : UInt64) :
    bits.toInt64.toInt =
      if bits.toNat < 0x8000000000000000 then (bits.toNat : Int) else bits.toNat - 0x10000000000000000 := by
  have signed : bits.toInt64.toInt = bits.toBitVec.toInt := rfl
  rw [signed, BitVec.toInt_eq_toNat_cond, UInt64.toNat_toBitVec]
  split <;> split <;> omega

/-- A word is the code point of a character with or without its sign. -/
theorem toInt_of_isScalar (scalar : IsScalar bits.toNat ∨ IsScalar bits.toInt64.toInt) :
    bits.toInt64.toInt = bits.toNat := by
  have word := bits.toNat_lt
  rw [toInt_toInt64] at scalar ⊢
  simp only [IsScalar] at scalar
  split at scalar <;> omega

theorem toItem_char (bits : UInt64) :
    (RawValue.ofTag .char bits).toItem = .ok (.char, .int bits.toInt64) := by
  simp only [RawValue.toItem, RawValue.typeTag_ofTag, RawValue.bits_ofTag]

theorem toNat_bits_ofChar (c : Char) : (RawValue.ofChar c).bits.toNat = c.toNat := by
  have scalar := isScalar_toNat c
  simp only [IsScalar] at scalar
  exact UInt64.toNat_ofNat_of_lt' (by simp only [UInt64.size]; omega)

/-- On every heap: a number prints one character in one to four bytes, its own where it is a code point and
U+FFFD where it is none, so that different code points print differently. The bytes of a character make a
string that is read as this character, the character zero apart. A raw character prints itself, and a raw
value of the same letter with any other word prints U+FFFD. -/
theorem code_points_print_characters (heap : Heap) :
    (∀ n : Int64, ∃ c, PrintsAs heap (.char, .int n) (Utf8.encodeChar c) ∧
      1 ≤ (Utf8.encodeChar c).length ∧ (Utf8.encodeChar c).length ≤ 4 ∧
      Utf8.decode? (Utf8.encodeChar c) = some [c] ∧
      (IsScalar n.toInt → (c.toNat : Int) = n.toInt) ∧ (¬ IsScalar n.toInt → c = '\uFFFD')) ∧
    (∀ (m n : Int64) (text : Bytes), IsScalar m.toInt → IsScalar n.toInt →
      PrintsAs heap (.char, .int m) text → PrintsAs heap (.char, .int n) text → m = n) ∧
    (∀ c, c ≠ '\x00' → ¬ heap.strings.isFull →
      ∃ h next, heap.createString (Utf8.encodeChar c) = (.ok h, next) ∧
        next.lossyText h = .ok (String.singleton c)) ∧
    (∀ c, ∃ item, (RawValue.ofChar c).toItem = .ok item ∧ PrintsAs heap item (Utf8.encodeChar c)) ∧
    ∀ bits : UInt64, (∀ c : Char, bits.toNat ≠ c.toNat) →
      ∃ item, (RawValue.ofTag .char bits).toItem = .ok item ∧
        PrintsAs heap item (Utf8.encodeChar '\uFFFD') := by
  refine ⟨fun n => ?_, fun m n text first second one two => ?_, fun c nonzero room => ?_, fun c => ?_,
    fun bits other => ?_⟩
  · obtain ⟨low, high⟩ := Utf8.length_encodeChar (charOfCodePoint n)
    exact ⟨_, printsAs_char heap n, low, high, Utf8.decode?_encodeChar _, toNat_charOfCodePoint,
      charOfCodePoint_of_not_scalar⟩
  · have both := (printsAs_iff.mp (printsAs_char heap m)).symm.trans (printsAs_iff.mp one)
    have others := (printsAs_iff.mp (printsAs_char heap n)).symm.trans (printsAs_iff.mp two)
    have same := Utf8.encodeChar_inj (Except.ok.inj (both.trans others.symm))
    rw [← Int64.toInt_inj, ← toNat_charOfCodePoint first, same, toNat_charOfCodePoint second]
  · obtain ⟨h, next, created, kept⟩ := Heap.exists_createString room (Utf8.zero_notMem_encodeChar nonzero)
    refine ⟨h, next, created, ?_⟩
    rw [Heap.lossyText_of_bytes kept, ← Utf8.encode_singleton, Utf8.decodeLossy_encode,
      String.singleton_eq_ofList]
  · refine ⟨_, toItem_char _, ?_⟩
    have number := toNat_bits_ofChar c
    have point : (RawValue.ofChar c).bits.toInt64.toInt = c.toNat := by
      rw [toInt_of_isScalar (.inl (number ▸ isScalar_toNat c)), number]
    have own := printsAs_char heap (RawValue.ofChar c).bits.toInt64
    rwa [charOfCodePoint_of_char point] at own
  · refine ⟨_, toItem_char _, ?_⟩
    have none : ¬ IsScalar bits.toInt64.toInt := by
      intro scalar
      have number := toInt_of_isScalar (.inr scalar)
      have point := toNat_charOfCodePoint scalar
      exact other (charOfCodePoint bits.toInt64) (by omega)
    rw [← charOfCodePoint_of_not_scalar none]
    exact printsAs_char heap _

/-- The last code point, a surrogate, and numbers that are letters in their low 32 bits. -/
theorem code_points_print_characters_once :
    let heap := Heap.empty .addressable none
    let beyond : Int64 := 0x100000041
    IsScalar (0x10FFFF : Int64).toInt ∧ ¬ IsScalar (0xD800 : Int64).toInt ∧ ¬ IsScalar beyond.toInt ∧
      PrintsAs heap (.char, .int 0x10FFFF) [0xF4, 0x8F, 0xBF, 0xBF] ∧
      PrintsAs heap (.char, .int 0xD800) [0xEF, 0xBF, 0xBD] ∧
      PrintsAs heap (.char, .int beyond) [0xEF, 0xBF, 0xBD] ∧
      PrintsAs heap (.char, .int (-1)) [0xEF, 0xBF, 0xBD] ∧
      (∃ h next, heap.createString [0xE2, 0x82, 0xAC] = (.ok h, next) ∧ next.lossyText h = .ok "€") ∧
      (∃ item, (RawValue.ofChar 'é').toItem = .ok item ∧ PrintsAs heap item [0xC3, 0xA9]) ∧
      ∃ item, (RawValue.ofTag .char 0x100000041).toItem = .ok item ∧ PrintsAs heap item [0xEF, 0xBF, 0xBD] := by
  intro heap beyond
  obtain ⟨prints, -, read, own, other⟩ := code_points_print_characters heap
  have replaced : ∀ n : Int64, ¬ IsScalar n.toInt → PrintsAs heap (.char, .int n) [0xEF, 0xBF, 0xBD] := by
    intro n none
    obtain ⟨c, printed, -, -, -, -, replacement⟩ := prints n
    rw [replacement none] at printed
    exact printed
  have last : IsScalar (0x10FFFF : Int64).toInt := by decide
  have surrogate : ¬ IsScalar (0xD800 : Int64).toInt := by decide
  have large : ¬ IsScalar beyond.toInt := by decide
  obtain ⟨c, printed, -, -, -, point, -⟩ := prints 0x10FFFF
  obtain rfl : c = Char.ofNat 0x10FFFF := Char.toNat_inj.mp (Int.natCast_inj.mp (point last))
  refine ⟨last, surrogate, large, printed, replaced _ surrogate, replaced _ large,
    replaced _ (by decide), read '€' (by decide) (by decide), own 'é', other _ ?_⟩
  intro c same
  have scalar := isScalar_toNat c
  rw [← same] at scalar
  revert scalar
  decide

end ScriptHost
