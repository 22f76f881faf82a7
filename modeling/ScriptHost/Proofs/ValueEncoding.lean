import Mathlib.Logic.ExistsUnique
import ScriptHost.Value

/-! Values and the raw values that stand for them. Every value comes back from its encoding, and a raw
value that decodes comes back from its value in settled form: the word of a truth value is 0 or 1, the
word of nothing is 0, and all else is as it was. -/
namespace ScriptHost

namespace TypeTag

/-- The letter of a type as the byte that carries it. -/
def byte (tag : TypeTag) : UInt8 := UInt8.ofNat tag.letter.toNat

variable {b : UInt8} {tag : TypeTag}

theorem toNat_ofNat_byte (b : UInt8) : (Char.ofNat b.toNat).toNat = b.toNat := by
  have valid : b.toNat.isValidChar := by
    have small := b.toNat_lt
    exact .inl (by omega)
  rw [Char.ofNat, dif_pos valid]
  rfl

theorem ofByte_eq_ok_iff : ofByte b = .ok tag ↔ b = tag.byte := by
  constructor
  · intro known
    have letter : tag.letter = Char.ofNat b.toNat := by
      rw [ofByte, ofChar] at known
      split at known
      · next named =>
        cases known
        exact letter_of_ofLetter? named
      · cases known
    rw [byte, letter, toNat_ofNat_byte, UInt8.ofNat_toNat]
  · rintro rfl
    cases tag <;> rfl

theorem ofByte_of_unknown (unknown : ∀ tag : TypeTag, b ≠ tag.byte) :
    ofByte b = .error (.unknownTag (Char.ofNat b.toNat)) := by
  cases named : ofLetter? (Char.ofNat b.toNat) with
  | some tag =>
    have known : ofByte b = .ok tag := by simp only [ofByte, ofChar, named]
    exact absurd (ofByte_eq_ok_iff.mp known) (unknown tag)
  | none => simp only [ofByte, ofChar, named]

end TypeTag

namespace RawValue

def settled (raw : RawValue) : RawValue :=
  match raw.typeTag with
  | .ok .bool => { raw with bits := if raw.bits = 0 then 0 else 1 }
  | .ok .none => { raw with bits := 0 }
  | _ => raw

variable {raw : RawValue} {tag : TypeTag} {v : Value}

theorem typeTag_ofTag (tag : TypeTag) (bits : UInt64) : (ofTag tag bits).typeTag = .ok tag :=
  TypeTag.ofByte_eq_ok_iff.mpr rfl

/-- The tag byte of a raw value is the letter of its type. -/
theorem ofTag_of_typeTag (known : raw.typeTag = .ok tag) (bits : UInt64) :
    ofTag tag bits = { raw with bits := bits } := by
  have byte : raw.tag = tag.byte := TypeTag.ofByte_eq_ok_iff.mp known
  rw [byte]
  rfl

theorem encode_of_decode (decoded : raw.decode = .ok v) : v.encode = raw.settled := by
  cases known : raw.typeTag with
  | error e => simp [decode, known] at decoded
  | ok tag =>
    have same := ofTag_of_typeTag known
    cases tag with
    | int =>
      simp only [decode, known] at decoded
      cases decoded
      simp only [Value.encode, same, settled, known]
      rfl
    | float | none =>
      simp only [decode, known] at decoded
      cases decoded
      simp only [Value.encode, same, settled, known]
    | string | list =>
      simp only [decode, known] at decoded
      cases decoded
      simp only [Value.encode, same, settled, known, Handle.toBits_ofBits]
    | bool =>
      simp only [decode, known] at decoded
      cases decoded
      simp only [Value.encode, same, settled, known]
      by_cases zero : raw.bits = 0 <;> simp [zero]
    | char => simp [decode, known] at decoded

@[simp] theorem bits_ofTag (tag : TypeTag) (bits : UInt64) : (ofTag tag bits).bits = bits := rfl

/-- The settled form by the tag byte. -/
theorem settled_eq (raw : RawValue) :
    raw.settled = ⟨raw.tag,
      if raw.tag = 'b'.toUInt8 then (if raw.bits = 0 then 0 else 1)
      else if raw.tag = 'n'.toUInt8 then 0 else raw.bits⟩ := by
  cases known : raw.typeTag with
  | error e =>
    have other (tag : TypeTag) : raw.tag ≠ tag.byte := by
      intro byte
      rw [typeTag, TypeTag.ofByte_eq_ok_iff.mpr byte] at known
      cases known
    have bool : raw.tag ≠ 'b'.toUInt8 := other .bool
    have none : raw.tag ≠ 'n'.toUInt8 := other .none
    simp only [settled, known, if_neg bool, if_neg none]
  | ok tag =>
    obtain ⟨letter, bits⟩ := raw
    obtain rfl : letter = tag.byte := TypeTag.ofByte_eq_ok_iff.mp known
    simp only [settled, known]
    cases tag <;> rfl

theorem decode_encode (v : Value) : v.encode.decode = .ok v := by
  cases v with
  | int n => simp [Value.encode, decode, typeTag_ofTag]
  | float x => simp [Value.encode, decode, typeTag_ofTag]
  | bool b => cases b <;> simp [Value.encode, decode, typeTag_ofTag]
  | none => simp [Value.encode, decode, typeTag_ofTag]
  | string h | list h => simp [Value.encode, decode, typeTag_ofTag]

theorem decode_of_typeTag_error {e : RuntimeError} (unknown : raw.typeTag = .error e) :
    raw.decode = .error e := by
  simp only [decode, unknown]

theorem decode_of_char (known : raw.typeTag = .ok .char) :
    raw.decode = .error (.tagMismatch .int .char) := by
  simp only [decode, known]

theorem exists_decode_of_typeTag (known : raw.typeTag = .ok tag) (value : tag ≠ .char) :
    ∃ v, raw.decode = .ok v := by
  cases tag with
  | char => exact absurd rfl value
  | int | float | string | bool | none | list =>
    simp only [decode, known]
    exact ⟨_, rfl⟩

/-- The bytes of the letters of values. The letter `c` is left out: a character is only printed. -/
def valueBytes : List UInt8 := ['i', 'f', 's', 'b', 'n', 'l'].map Char.toUInt8

theorem mem_valueBytes_iff {b : UInt8} :
    b ∈ valueBytes ↔ ∃ tag : TypeTag, tag ≠ .char ∧ b = tag.byte := by
  constructor
  · intro member
    simp only [valueBytes, List.map_cons, List.map_nil, List.mem_cons, List.not_mem_nil,
      or_false] at member
    rcases member with rfl | rfl | rfl | rfl | rfl | rfl
    · exact ⟨.int, by decide, rfl⟩
    · exact ⟨.float, by decide, rfl⟩
    · exact ⟨.string, by decide, rfl⟩
    · exact ⟨.bool, by decide, rfl⟩
    · exact ⟨.none, by decide, rfl⟩
    · exact ⟨.list, by decide, rfl⟩
  · rintro ⟨tag, value, rfl⟩
    cases tag with
    | char => exact absurd rfl value
    | int | float | string | bool | none | list => decide

theorem exists_decode_iff : (∃ v, raw.decode = .ok v) ↔ raw.tag ∈ valueBytes := by
  rw [mem_valueBytes_iff]
  constructor
  · rintro ⟨v, decoded⟩
    cases known : raw.typeTag with
    | error e =>
      rw [decode_of_typeTag_error known] at decoded
      cases decoded
    | ok tag =>
      refine ⟨tag, ?_, TypeTag.ofByte_eq_ok_iff.mp known⟩
      rintro rfl
      rw [decode_of_char known] at decoded
      cases decoded
  · rintro ⟨tag, value, byte⟩
    exact exists_decode_of_typeTag (TypeTag.ofByte_eq_ok_iff.mpr byte) value

theorem decode_of_unknown (value : raw.tag ∉ valueBytes) (character : raw.tag ≠ 'c'.toUInt8) :
    raw.decode = .error (.unknownTag (Char.ofNat raw.tag.toNat)) := by
  apply decode_of_typeTag_error
  apply TypeTag.ofByte_of_unknown
  intro tag byte
  by_cases same : tag = .char
  · apply character
    rw [byte, same]
    rfl
  · exact value (mem_valueBytes_iff.mpr ⟨tag, same, byte⟩)

end RawValue

/-! Handles and the words that they travel as. -/

namespace Handle

variable {kind : ObjectKind}

theorem index_ofBits (bits : UInt64) : (ofBits bits : Handle kind).index = bits.toUInt32 := by
  apply UInt32.toNat_inj.mp
  rw [toNat_index_ofBits]
  rfl

theorem generation_ofBits (bits : UInt64) :
    (ofBits bits : Handle kind).generation = (bits >>> 32).toUInt32 := by
  have small := bits.toNat_lt
  apply UInt32.toNat_inj.mp
  rw [toNat_generation_ofBits]
  simp [Nat.shiftRight_eq_div_pow, UInt32.size]
  omega

theorem existsUnique_toBits (kind : ObjectKind) (bits : UInt64) :
    ∃! h : Handle kind, h.toBits = bits := by
  refine ⟨ofBits bits, toBits_ofBits bits, ?_⟩
  rintro h rfl
  exact (ofBits_toBits h).symm

end Handle

namespace Value

/-- The ways to read a value as a type, each with what it answers. -/
def readings (v : Value) : List (TypeTag × Outcome Value) :=
  [(.int, .int <$> v.asInt), (.float, .float <$> v.asFloat), (.string, .string <$> v.asString),
    (.bool, .bool <$> v.asBool), (.list, .list <$> v.asList)]

theorem reading_eq (v : Value) :
    ∀ r ∈ v.readings, r.2 = if r.1 = v.tag then .ok v else .error (.tagMismatch r.1 v.tag) := by
  intro r member
  simp only [readings, List.mem_cons, List.not_mem_nil, or_false] at member
  rcases member with rfl | rfl | rfl | rfl | rfl <;> cases v <;> rfl

theorem isNone_iff (v : Value) : v.isNone ↔ v.tag = .none := by
  cases v <;> simp [isNone, tag]

/-- One reading succeeds, or the value is nothing. -/
theorem countP_readings (v : Value) :
    v.readings.countP (·.2.isOk) + v.isNone.toNat = 1 := by
  cases v <;> rfl

end Value

/-- Every value comes back from its encoding. A raw value decodes if its byte is the letter of a value;
a character is a mismatch, and any other byte is unknown, as the character of the same number. A raw
value that decodes is encoded again in settled form, which is settled for good and decodes to the same
value. Every word is the packed form of one handle of each kind. Of the ways to read a value, the one
of its type succeeds, and the others name both types. -/
theorem raw_values_encode_values :
    (∀ v : Value, v.encode.decode = .ok v) ∧
    (∀ raw : RawValue,
      ((∃ v, raw.decode = .ok v) ↔ raw.tag ∈ RawValue.valueBytes) ∧
      (raw.tag = 'c'.toUInt8 → raw.decode = .error (.tagMismatch .int .char)) ∧
      (raw.tag ∉ RawValue.valueBytes → raw.tag ≠ 'c'.toUInt8 →
        ∃ c : Char, c.toNat = raw.tag.toNat ∧ raw.decode = .error (.unknownTag c)) ∧
      ∀ v, raw.decode = .ok v →
        v.encode = ⟨raw.tag,
          if raw.tag = 'b'.toUInt8 then (if raw.bits = 0 then 0 else 1)
          else if raw.tag = 'n'.toUInt8 then 0 else raw.bits⟩ ∧
        v.encode.settled = v.encode ∧ v.encode.decode = .ok v) ∧
    (∀ (kind : ObjectKind) (bits : UInt64), ∃! h : Handle kind, h.toBits = bits) ∧
    (∀ (kind : ObjectKind) (h : Handle kind),
      h.index = h.toBits.toUInt32 ∧ h.generation = (h.toBits >>> 32).toUInt32) ∧
    (∀ v : Value,
      (∀ r ∈ v.readings,
        r.2 = if r.1 = v.tag then .ok v else .error (.tagMismatch r.1 v.tag)) ∧
      (v.isNone ↔ v.tag = .none) ∧ v.readings.countP (·.2.isOk) + v.isNone.toNat = 1) := by
  refine ⟨RawValue.decode_encode, ?_, Handle.existsUnique_toBits, ?_, ?_⟩
  · intro raw
    refine ⟨RawValue.exists_decode_iff, ?_, ?_, ?_⟩
    · intro character
      apply RawValue.decode_of_char
      exact TypeTag.ofByte_eq_ok_iff.mpr character
    · intro value character
      exact ⟨_, TypeTag.toNat_ofNat_byte raw.tag, RawValue.decode_of_unknown value character⟩
    · intro v decoded
      have back := RawValue.decode_encode v
      refine ⟨?_, (RawValue.encode_of_decode back).symm, back⟩
      rw [RawValue.encode_of_decode decoded, RawValue.settled_eq]
  · intro kind h
    have packed := Handle.ofBits_toBits h
    constructor
    · rw [← @Handle.index_ofBits kind, packed]
    · rw [← @Handle.generation_ofBits kind, packed]
  · intro v
    exact ⟨v.reading_eq, v.isNone_iff, v.countP_readings⟩

/-- A truth value with another word than 0 or 1, and a byte beyond the letters. -/
theorem raw_values_encode_values_once :
    (⟨'b'.toUInt8, 42⟩ : RawValue).decode = .ok (.bool true) ∧
      (Value.bool true).encode = ⟨'b'.toUInt8, 1⟩ ∧ (0xE9 : UInt8) ∉ RawValue.valueBytes ∧
      ∃ c : Char, c.toNat = 0xE9 ∧ (⟨0xE9, 7⟩ : RawValue).decode = .error (.unknownTag c) := by
  obtain ⟨_, raws, _⟩ := raw_values_encode_values
  have decoded : (⟨'b'.toUInt8, 42⟩ : RawValue).decode = .ok (.bool true) := rfl
  obtain ⟨_, _, _, again⟩ := raws ⟨'b'.toUInt8, 42⟩
  obtain ⟨_, _, unknown, _⟩ := raws ⟨0xE9, 7⟩
  have other : (0xE9 : UInt8) ∉ RawValue.valueBytes := by decide
  exact ⟨decoded, (again _ decoded).1, other, unknown other (by decide)⟩

end ScriptHost
