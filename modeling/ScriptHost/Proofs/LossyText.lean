import Mathlib.Tactic.SplitIfs
import ScriptHost.Proofs.StringMaking
import ScriptHost.Proofs.Utf8Decoding

/-! Strings read as text although their bytes may be ill-formed. What stands for no character is cut into
parts, each as long as it still begins a character, and every part is read as one replacement character. So
text is read as itself, what was read is read again as the same text, and two strings are read one after
the other unless the second one could continue the first one's last character. -/
namespace ScriptHost.Utf8

/-- The first bytes of a character, or all of them. -/
def BeginsCharacter (bytes : Bytes) : Prop := ∃ c, bytes <+: encodeChar c

/-- A part in front of the rest that stands for no character: the longest that begins one, or a single byte
where even the first one begins none. -/
structure IllFormed (part rest : Bytes) : Prop where
  nonempty : part ≠ []
  noCharacter : ∀ c, ¬ encodeChar c <+: part ++ rest
  short : part.length = 1 ∨ BeginsCharacter part
  longest : ∀ longer, longer <+: part ++ rest → BeginsCharacter longer → longer.length ≤ part.length

/-- The text that bytes are read as. -/
inductive ReadsAs : Bytes → List Char → Prop
  | nil : ReadsAs [] []
  | character (c : Char) {rest : Bytes} {text : List Char} (behind : ReadsAs rest text) :
      ReadsAs (encodeChar c ++ rest) (c :: text)
  | illFormed {part rest : Bytes} {text : List Char} (bad : IllFormed part rest)
      (behind : ReadsAs rest text) : ReadsAs (part ++ rest) (replacement :: text)

def IsContinuation (b : UInt8) : Prop := 0x80 ≤ b.toNat ∧ b.toNat ≤ 0xBF

variable {b : UInt8} {bytes rest behind left right : Bytes} {point : Nat} {ranges : List ByteRange}
  {lead : Lead} {text : List Char}

/-! What may follow a leading byte, and where following it stops. -/

/-- Some byte lies in the range, and only continuation bytes do. -/
def ByteRange.Inner (r : ByteRange) : Prop := 0x80 ≤ r.low ∧ r.low ≤ r.high ∧ r.high ≤ 0xBF

theorem inner_of_lead? (announced : lead? b = some lead) : ∀ r ∈ lead.following, r.Inner := by
  simp only [lead?, tail] at announced
  split_ifs at announced
  all_goals
    obtain rfl := Option.some.inj announced
    simp [ByteRange.Inner]

theorem ByteRange.Inner.contains_low {r : ByteRange} (inner : r.Inner) :
    r.contains (UInt8.ofNat r.low) = true := by
  obtain ⟨_, inhabited, high⟩ := inner
  have number : (UInt8.ofNat r.low).toNat = r.low :=
    UInt8.toNat_ofNat_of_lt' (by simp only [UInt8.size]; omega)
  simp [contains, number, inhabited]

theorem ByteRange.Inner.isContinuation {r : ByteRange} (inner : r.Inner) (inside : r.contains b = true) :
    IsContinuation b := by
  obtain ⟨low, _, high⟩ := inner
  simp only [contains, Bool.and_eq_true, decide_eq_true_eq] at inside
  exact ⟨Nat.le_trans low inside.1, Nat.le_trans inside.2 high⟩

theorem exists_follow (inner : ∀ r ∈ ranges, r.Inner) (point : Nat) :
    ∃ bytes p, follow point ranges bytes = (some p, []) := by
  induction ranges generalizing point with
  | nil => exact ⟨[], point, rfl⟩
  | cons r ranges ih =>
    obtain ⟨first, others⟩ := List.forall_mem_cons.mp inner
    obtain ⟨bytes, p, followed⟩ := ih others (point * 64 + (UInt8.ofNat r.low).toNat % 64)
    exact ⟨UInt8.ofNat r.low :: bytes, p, by rw [follow, if_pos first.contains_low, followed]⟩

/-- Bytes that were followed and stopped begin a character, and do not with the byte behind them. -/
theorem follow_none (inner : ∀ r ∈ ranges, r.Inner) (stopped : follow point ranges bytes = (none, behind)) :
    ∃ taken, bytes = taken ++ behind ∧ (∃ fill p, follow point ranges (taken ++ fill) = (some p, [])) ∧
      ∀ b left, behind = b :: left → ∀ more p after,
        follow point ranges (taken ++ b :: more) ≠ (some p, after) := by
  fun_induction follow point ranges bytes with
  | case1 => cases stopped
  | case2 point r ranges =>
    cases stopped
    refine ⟨[], rfl, exists_follow inner point, fun b left nothing => ?_⟩
    cases nothing
  | case3 point r ranges b rest inside ih =>
    obtain ⟨taken, rfl, ⟨fill, p, filled⟩, short⟩ := ih (List.forall_mem_cons.mp inner).2 stopped
    refine ⟨b :: taken, rfl, ⟨fill, p, ?_⟩, ?_⟩
    · rw [List.cons_append, follow, if_pos inside, filled]
    · intro next left parts more
      rw [List.cons_append, follow, if_pos inside]
      exact short next left parts more
  | case4 point r ranges b rest outside =>
    cases stopped
    refine ⟨[], rfl, exists_follow inner point, ?_⟩
    rintro _ _ ⟨⟩ more p after
    rw [List.nil_append, follow, if_neg outside]
    intro same
    cases same

/-- What the first byte of a character announces, the others fulfil. -/
theorem exists_lead_of_character (c : Char) :
    ∃ b bytes lead p, encodeChar c = b :: bytes ∧ lead? b = some lead ∧
      follow lead.payload lead.following bytes = (some p, []) := by
  obtain ⟨b, bytes, encoded, read⟩ := scanOne_encodeChar c []
  rw [List.append_nil, scanOne] at read
  split at read
  · cases read
  · next lead announced =>
    rw [Prod.mk.injEq, Option.map_eq_some_iff] at read
    obtain ⟨⟨p, some, _⟩, left⟩ := read
    exact ⟨b, bytes, lead, p, encoded, announced, Prod.ext some left⟩

theorem exists_lead_of_beginsCharacter (begins : BeginsCharacter (b :: bytes)) :
    ∃ lead more p, lead? b = some lead ∧
      follow lead.payload lead.following (bytes ++ more) = (some p, []) := by
  obtain ⟨c, more, encoded⟩ := begins
  obtain ⟨first, others, lead, p, same, announced, followed⟩ := exists_lead_of_character c
  rw [same, List.cons_append, List.cons.injEq] at encoded
  obtain ⟨rfl, rfl⟩ := encoded
  exact ⟨lead, more, p, announced, followed⟩

/-! The cut of the scanner is the one that the reading asks for. -/

theorem scanOne_of_character (c : Char) (rest : Bytes) (parts : b :: bytes = encodeChar c ++ rest) :
    scanOne b bytes = (some c, rest) := by
  obtain ⟨first, others, encoded, read⟩ := scanOne_encodeChar c rest
  rw [encoded, List.cons_append, List.cons.injEq] at parts
  obtain ⟨rfl, rfl⟩ := parts
  exact read

theorem illFormed_of_no_lead (unannounced : lead? b = none) (rest : Bytes) : IllFormed [b] rest := by
  have none (more : Bytes) : ¬ BeginsCharacter (b :: more) := by
    intro begins
    obtain ⟨lead, _, _, announced, _⟩ := exists_lead_of_beginsCharacter begins
    rw [unannounced] at announced
    cases announced
  refine ⟨List.cons_ne_nil _ _, ?_, .inl rfl, ?_⟩
  · rintro c ⟨more, parts⟩
    obtain ⟨first, others, _, _, encoded, _⟩ := exists_lead_of_character c
    rw [encoded, List.cons_append, List.singleton_append, List.cons.injEq] at parts
    obtain ⟨rfl, _⟩ := parts
    exact none others ⟨c, encoded ▸ List.prefix_rfl⟩
  · rintro longer ⟨more, parts⟩ begins
    cases longer with
    | nil => exact Nat.zero_le _
    | cons first others =>
      rw [List.cons_append, List.singleton_append, List.cons.injEq] at parts
      obtain ⟨rfl, _⟩ := parts
      exact absurd begins (none others)

theorem illFormed_of_stop (announced : lead? b = some lead)
    (stopped : follow lead.payload lead.following bytes = (none, behind)) :
    ∃ taken, bytes = taken ++ behind ∧ IllFormed (b :: taken) behind := by
  have whole : scanOne b bytes = (none, behind) := by
    simp only [scanOne, announced, stopped, Option.map_none]
  obtain ⟨taken, rfl, ⟨fill, p, filled⟩, short⟩ := follow_none (inner_of_lead? announced) stopped
  refine ⟨taken, rfl, List.cons_ne_nil _ _, ?_, .inr ?_, ?_⟩
  · rintro c ⟨more, parts⟩
    have read : scanOne b (taken ++ behind) = (some c, more) := scanOne_of_character c more parts.symm
    cases whole.symm.trans read
  · have read : scanOne b (taken ++ fill) = (some (Char.ofNat p), []) := by
      simp only [scanOne, announced, filled, Option.map_some]
    refine ⟨Char.ofNat p, fill, ?_⟩
    rw [← List.append_nil (encodeChar _), encodeChar_of_scanOne read]
    rfl
  · rintro longer ⟨more, parts⟩ begins
    refine Nat.le_of_not_lt fun further => ?_
    -- A longer part takes in the byte at which following stopped.
    obtain ⟨next, rfl⟩ : b :: taken <+: longer :=
      List.prefix_of_prefix_length_le ⟨behind, rfl⟩ ⟨more, parts⟩ (Nat.le_of_lt further)
    rw [List.append_assoc, List.append_cancel_left_eq] at parts
    cases next with
    | nil => simp at further
    | cons x next =>
      rw [List.cons_append] at begins
      obtain ⟨_, fill, p, same, followed⟩ := exists_lead_of_beginsCharacter begins
      obtain rfl := Option.some.inj (announced.symm.trans same)
      rw [List.append_assoc, List.cons_append] at followed
      exact short x _ parts.symm _ p _ followed

theorem illFormed_of_scanOne (stopped : scanOne b bytes = (none, behind)) :
    ∃ part, b :: bytes = part ++ behind ∧ IllFormed part behind := by
  rw [scanOne] at stopped
  split at stopped
  · next unannounced =>
    cases stopped
    exact ⟨[b], rfl, illFormed_of_no_lead unannounced _⟩
  · next lead announced =>
    rw [Prod.mk.injEq, Option.map_eq_none_iff] at stopped
    obtain ⟨taken, rfl, bad⟩ := illFormed_of_stop announced (Prod.ext stopped.1 stopped.2)
    exact ⟨b :: taken, rfl, bad⟩

theorem IllFormed.length_le {part other : Bytes} (bad : IllFormed part rest)
    (also : IllFormed other behind) (same : part ++ rest = other ++ behind) :
    other.length ≤ part.length := by
  rcases also.short with single | begins
  · rw [single]
    exact List.length_pos_iff.mpr bad.nonempty
  · exact bad.longest other ⟨behind, same.symm⟩ begins

/-- There is one way to cut an ill-formed part off. -/
theorem IllFormed.unique {part other : Bytes} (bad : IllFormed part rest)
    (also : IllFormed other behind) (same : part ++ rest = other ++ behind) : rest = behind := by
  have length := Nat.le_antisymm (also.length_le bad same.symm) (bad.length_le also same)
  exact (List.append_inj same length).2

theorem decodeLossy_nil : decodeLossy [] = [] := by
  rw [decodeLossy, scan, List.map_nil]

theorem decodeLossy_cons (b : UInt8) (rest : Bytes) :
    decodeLossy (b :: rest) = (scanOne b rest).1.getD replacement :: decodeLossy (scanOne b rest).2 := by
  rw [decodeLossy, scan_cons]
  rfl

theorem readsAs_decodeLossy (bytes : Bytes) : ReadsAs bytes (decodeLossy bytes) := by
  fun_induction scan bytes with
  | case1 =>
    rw [decodeLossy_nil]
    exact .nil
  | case2 b rest _ ih =>
    rw [decodeLossy_cons]
    cases cut : scanOne b rest with
    | mk found behind =>
      rw [cut] at ih
      cases found with
      | some c =>
        rw [← encodeChar_of_scanOne cut]
        exact .character c ih
      | none =>
        obtain ⟨part, parts, bad⟩ := illFormed_of_scanOne cut
        rw [parts]
        exact .illFormed bad ih

/-- Lossy decoding is the one reading of the bytes. -/
theorem readsAs_iff : ReadsAs bytes text ↔ text = decodeLossy bytes := by
  constructor
  · intro reads
    induction reads with
    | nil => exact decodeLossy_nil.symm
    | @character c rest text _ ih =>
      obtain ⟨b, others, encoded, read⟩ := scanOne_encodeChar c rest
      rw [encoded, List.cons_append, decodeLossy_cons, read, ih]
      rfl
    | @illFormed part rest text bad _ ih =>
      obtain ⟨b, others, rfl⟩ := List.exists_cons_of_ne_nil bad.nonempty
      rw [List.cons_append, decodeLossy_cons]
      cases cut : scanOne b (others ++ rest) with
      | mk found behind =>
        cases found with
        | some c => exact absurd ⟨behind, encodeChar_of_scanOne cut⟩ (bad.noCharacter c)
        | none =>
          obtain ⟨other, parts, also⟩ := illFormed_of_scanOne cut
          rw [ih, bad.unique also parts]
          rfl
  · rintro rfl
    exact readsAs_decodeLossy bytes

/-! What is read of texts, and of bytes behind other bytes. -/

theorem decodeLossy_encode_append (text : List Char) (bytes : Bytes) :
    decodeLossy (encode text ++ bytes) = text ++ decodeLossy bytes := by
  induction text with
  | nil => rfl
  | cons c text ih =>
    obtain ⟨b, others, encoded, read⟩ := scanOne_encodeChar c (encode text ++ bytes)
    have parts : encode (c :: text) ++ bytes = b :: (others ++ (encode text ++ bytes)) := by
      rw [encode, List.flatMap_cons, encoded, ← encode]
      simp
    rw [parts, decodeLossy_cons, read, ih]
    rfl

theorem decodeLossy_encode (text : List Char) : decodeLossy (encode text) = text := by
  have alone := decodeLossy_encode_append text []
  rwa [decodeLossy_nil, List.append_nil, List.append_nil] at alone

theorem follow_append (inner : ∀ r ∈ ranges, r.Inner) (starts : ∀ b ∈ right.head?, ¬ IsContinuation b)
    (point : Nat) (bytes : Bytes) :
    follow point ranges (bytes ++ right) =
      ((follow point ranges bytes).1, (follow point ranges bytes).2 ++ right) := by
  fun_induction follow point ranges bytes with
  | case1 => rfl
  | case2 point r ranges =>
    cases right with
    | nil => rfl
    | cons b right =>
      have outside : ¬ r.contains b = true := fun inside =>
        starts b rfl ((inner r List.mem_cons_self).isContinuation inside)
      rw [List.nil_append, follow, if_neg outside]
  | case3 point r ranges b rest inside ih =>
    rw [List.cons_append, follow, if_pos inside]
    exact ih (List.forall_mem_cons.mp inner).2
  | case4 point r ranges b rest outside =>
    rw [List.cons_append, follow, if_neg outside]

theorem scanOne_append (starts : ∀ b ∈ right.head?, ¬ IsContinuation b) (b : UInt8) (rest : Bytes) :
    scanOne b (rest ++ right) = ((scanOne b rest).1, (scanOne b rest).2 ++ right) := by
  cases announced : lead? b with
  | none => simp only [scanOne, announced]
  | some lead => simp only [scanOne, announced, follow_append (inner_of_lead? announced) starts]

/-- No character goes across the seam if no continuation byte stands behind it. -/
theorem decodeLossy_append (starts : ∀ b ∈ right.head?, ¬ IsContinuation b) (left : Bytes) :
    decodeLossy (left ++ right) = decodeLossy left ++ decodeLossy right := by
  fun_induction scan left with
  | case1 => rw [List.nil_append, decodeLossy_nil, List.nil_append]
  | case2 b rest _ ih =>
    rw [List.cons_append, decodeLossy_cons, scanOne_append starts, ih, decodeLossy_cons]
    rfl

/-- Bytes without a zero are read as a text without the character zero. -/
theorem ReadsAs.zero_notMem (reads : ReadsAs bytes text) (nonzero : 0 ∉ bytes) : 0 ∉ encode text := by
  induction reads with
  | nil => exact nonzero
  | @character c rest text _ ih =>
    rw [List.mem_append, not_or] at nonzero
    rw [encode, List.flatMap_cons, List.mem_append, not_or]
    exact ⟨nonzero.1, ih nonzero.2⟩
  | @illFormed part rest text _ _ ih =>
    rw [List.mem_append, not_or] at nonzero
    rw [encode, List.flatMap_cons, List.mem_append, not_or]
    exact ⟨by decide, ih nonzero.2⟩

end ScriptHost.Utf8

namespace ScriptHost.Heap

open Utf8 (Bytes)

variable {heap : Heap} {a b h : StringHandle} {bytes left right : Bytes}

theorem lossyText_of_bytes (read : heap.stringBytes h = .ok bytes) :
    heap.lossyText h = .ok (String.ofList (Utf8.decodeLossy bytes)) := by
  obtain ⟨s, found, rfl⟩ := stringBytes_eq_ok_iff.mp read
  rw [lossyText, found]
  rfl

theorem stringBytes_nextHandle (room : ¬ heap.strings.isFull) (s : PooledString) :
    ({ heap with strings := (heap.strings.register s).2 } : Heap).stringBytes heap.strings.nextHandle =
      .ok s.bytes :=
  stringBytes_of_string (Registry.get_nextHandle room s)

/-- Bytes without a zero are kept as they are. -/
theorem exists_createString (room : ¬ heap.strings.isFull) (nonzero : 0 ∉ bytes) :
    ∃ g next, heap.createString bytes = (.ok g, next) ∧ next.stringBytes g = .ok bytes := by
  refine ⟨_, _, createString_of_not_isFull room bytes, ?_⟩
  rw [stringBytes_nextHandle room, PooledString.bytes_ofBytes_of_nonzero nonzero]

theorem exists_concatStrings (room : ¬ heap.strings.isFull) (first : heap.stringBytes a = .ok left)
    (second : heap.stringBytes b = .ok right) :
    ∃ g next, heap.concatStrings a b = (.ok g, next) ∧ next.stringBytes g = .ok (left ++ right) := by
  obtain ⟨s, found, rfl⟩ := stringBytes_eq_ok_iff.mp first
  obtain ⟨t, also, rfl⟩ := stringBytes_eq_ok_iff.mp second
  have read : heap.joined a b = .ok (s.append t) := by
    simp only [joined, found, also]
    rfl
  refine ⟨_, _, concatStrings_of_not_isFull read room, ?_⟩
  rw [stringBytes_nextHandle room, PooledString.bytes_append]

/-- The strings of a heap behind any operations, read as text. A live string has one text, that of its bytes,
each ill-formed part replaced; it is the text itself where the bytes are those of a text. Made into a
string again it loses nothing and is read as before. Two strings joined are read one behind the other, if
the first one is text or the second one starts with no continuation byte. -/
theorem lossyText_reads_bytes (allocator : Allocator) (limit : Option Nat) (ops : List Operation) :
    let heap := (empty allocator limit).after ops
    (∀ h bytes, heap.stringBytes h = .ok bytes → ∃ text, heap.lossyText h = .ok text ∧
      (∀ chars, Utf8.ReadsAs bytes chars ↔ chars = text.toList) ∧
      (∀ s, bytes = Utf8.ofString s → text = s) ∧
      (¬ heap.strings.isFull → ∃ g next, heap.createString (Utf8.ofString text) = (.ok g, next) ∧
        next.stringBytes g = .ok (Utf8.ofString text) ∧ next.lossyText g = .ok text)) ∧
    ∀ a b left right first second, heap.stringBytes a = .ok left → heap.stringBytes b = .ok right →
      heap.lossyText a = .ok first → heap.lossyText b = .ok second →
      (∃ s, left = Utf8.ofString s) ∨ (∀ x ∈ right.head?, ¬ Utf8.IsContinuation x) →
      ¬ heap.strings.isFull →
      ∃ g next, heap.concatStrings a b = (.ok g, next) ∧ next.lossyText g = .ok (first ++ second) := by
  intro heap
  have sound : heap.Sound limit := (sound_empty allocator limit).after ops
  constructor
  · intro h bytes read
    have spelled : Utf8.ofString (String.ofList (Utf8.decodeLossy bytes)) =
        Utf8.encode (Utf8.decodeLossy bytes) := by
      rw [Utf8.ofString, String.toList_ofList]
    refine ⟨_, lossyText_of_bytes read, ?_, ?_, ?_⟩
    · intro chars
      rw [Utf8.readsAs_iff, String.toList_ofList]
    · rintro s rfl
      rw [Utf8.ofString, Utf8.decodeLossy_encode, String.ofList_toList]
    · intro room
      obtain ⟨s, found, rfl⟩ := stringBytes_eq_ok_iff.mp read
      have nonzero := (Utf8.readsAs_decodeLossy s.bytes).zero_notMem (sound.string found).2
      rw [spelled]
      obtain ⟨g, next, created, kept⟩ := exists_createString room nonzero
      refine ⟨g, next, created, kept, ?_⟩
      rw [lossyText_of_bytes kept, Utf8.decodeLossy_encode]
  · intro a b left right first second leftRead rightRead firstText secondText seam room
    obtain ⟨g, next, joined, bytes⟩ := exists_concatStrings room leftRead rightRead
    refine ⟨g, next, joined, ?_⟩
    have together : Utf8.decodeLossy (left ++ right) = Utf8.decodeLossy left ++ Utf8.decodeLossy right := by
      rcases seam with ⟨s, rfl⟩ | starts
      · rw [Utf8.ofString, Utf8.decodeLossy_encode_append, Utf8.decodeLossy_encode]
      · exact Utf8.decodeLossy_append starts left
    rw [lossyText_of_bytes leftRead, Except.ok.injEq] at firstText
    rw [lossyText_of_bytes rightRead, Except.ok.injEq] at secondText
    rw [lossyText_of_bytes bytes, together, String.ofList_append, firstText, secondText]

/-- The first two bytes of a character of three, in front of a letter and in front of the third byte. -/
theorem lossyText_reads_bytes_once :
    let heap := (empty .addressable none).after
      [.createString [0x61, 0xE2, 0x82], .createString [0x62, 0x00, 0x63], .createString [0xAC]]
    (∃ text, heap.lossyText ⟨0, 0⟩ = .ok text ∧
      (Utf8.ReadsAs [0x61, 0xE2, 0x82] ['a', '\uFFFD'] ↔ ['a', '\uFFFD'] = text.toList)) ∧
    heap.lossyText ⟨0, 0⟩ = .ok "a\uFFFD" ∧
    (∃ g next, heap.concatStrings ⟨0, 0⟩ ⟨1, 0⟩ = (.ok g, next) ∧ next.lossyText g = .ok "a\uFFFDb") ∧
    (heap.concatStrings ⟨0, 0⟩ ⟨2, 0⟩).2.lossyText ⟨3, 0⟩ = .ok "a€" := by
  intro heap
  have first : heap.stringBytes ⟨0, 0⟩ = .ok [0x61, 0xE2, 0x82] := rfl
  have second : heap.stringBytes ⟨1, 0⟩ = .ok [0x62] := rfl
  have both : (heap.concatStrings ⟨0, 0⟩ ⟨2, 0⟩).2.stringBytes ⟨3, 0⟩ = .ok [0x61, 0xE2, 0x82, 0xAC] := rfl
  have readings : Utf8.decodeLossy [0x61, 0xE2, 0x82] = ['a', '\uFFFD'] ∧ Utf8.decodeLossy [0x62] = ['b'] ∧
      Utf8.decodeLossy [0x61, 0xE2, 0x82, 0xAC] = ['a', '€'] := by decide +kernel
  have broken : heap.lossyText ⟨0, 0⟩ = .ok "a\uFFFD" := by
    rw [lossyText_of_bytes first, readings.1]
  have letter : heap.lossyText ⟨1, 0⟩ = .ok "b" := by
    rw [lossyText_of_bytes second, readings.2.1]
  have whole : (heap.concatStrings ⟨0, 0⟩ ⟨2, 0⟩).2.lossyText ⟨3, 0⟩ = .ok "a€" := by
    rw [lossyText_of_bytes both, readings.2.2]
  have starts : ∀ x ∈ [(0x62 : UInt8)].head?, ¬ Utf8.IsContinuation x := by
    rintro _ ⟨⟩
    simp [Utf8.IsContinuation]
  obtain ⟨texts, joined⟩ := lossyText_reads_bytes .addressable none
    [.createString [0x61, 0xE2, 0x82], .createString [0x62, 0x00, 0x63], .createString [0xAC]]
  obtain ⟨text, read, reads, _⟩ := texts _ _ first
  exact ⟨⟨text, read, reads _⟩, broken,
    joined _ _ _ _ _ _ first second broken letter (.inr starts) (by decide), whole⟩

end ScriptHost.Heap
