import ScriptHost.Text.Utf8

/-! Decoding undoes encoding: the bytes of a text are cut into exactly its characters. And it is
strict: no other bytes are read as that text. -/
namespace ScriptHost.Utf8

theorem encodeChar_of_ascii {c : Char} (ascii : c.toNat ≤ 127) :
    encodeChar c = [UInt8.ofNat c.toNat] := by
  rw [encodeChar, String.utf8EncodeChar]
  exact if_pos ascii

theorem ofString_append (s t : String) : ofString (s ++ t) = ofString s ++ ofString t := by
  simp [ofString, encode]

/-- The byte that carries the last six bits of `n`, where the range `r` admits it. -/
theorem follow_six {r : ByteRange} {n : Nat} (inside : r.low ≤ n % 64 + 128 ∧ n % 64 + 128 ≤ r.high)
    (point : Nat) (ranges : List ByteRange) (rest : Bytes) :
    follow point (r :: ranges) (UInt8.ofNat (n % 64 + 128) :: rest) =
      follow (point * 64 + n % 64) ranges rest := by
  have number : (UInt8.ofNat (n % 64 + 128)).toNat = n % 64 + 128 :=
    UInt8.toNat_ofNat_of_lt' (by simp only [UInt8.size]; omega)
  have contained : r.contains (UInt8.ofNat (n % 64 + 128)) = true := by
    simp only [ByteRange.contains, number, Bool.and_eq_true, decide_eq_true_eq]
    exact inside
  have bits : (n % 64 + 128) % 64 = n % 64 := by omega
  rw [follow, if_pos contained, number, bits]

theorem tail_six (n : Nat) : tail.low ≤ n % 64 + 128 ∧ n % 64 + 128 ≤ tail.high := by
  simp only [tail]
  omega

theorem lead?_ofNat {n : Nat} (small : n < 256) :
    lead? (UInt8.ofNat n) =
      if n < 0x80 then some ⟨n, []⟩
      else if n < 0xC2 then none
      else if n < 0xE0 then some ⟨n - 0xC0, [tail]⟩
      else if n = 0xE0 then some ⟨0, [⟨0xA0, 0xBF⟩, tail]⟩
      else if n = 0xED then some ⟨0xD, [⟨0x80, 0x9F⟩, tail]⟩
      else if n < 0xF0 then some ⟨n - 0xE0, [tail, tail]⟩
      else if n = 0xF0 then some ⟨0, [⟨0x90, 0xBF⟩, tail, tail]⟩
      else if n < 0xF4 then some ⟨n - 0xF0, [tail, tail, tail]⟩
      else if n = 0xF4 then some ⟨4, [⟨0x80, 0x8F⟩, tail, tail]⟩
      else none := by
  simp only [lead?, UInt8.toNat_ofNat_of_lt' small]

theorem lead?_of_two {v : Nat} (low : 0x80 ≤ v) (high : v ≤ 0x7FF) :
    lead? (UInt8.ofNat (v / 64 % 32 + 192)) = some ⟨v / 64, [tail]⟩ := by
  have payload : v / 64 % 32 + 192 - 0xC0 = v / 64 := by omega
  rw [lead?_ofNat (by omega), if_neg (by omega), if_neg (by omega), if_pos (by omega), payload]

/-- The second byte is narrowed only where the point would fit two bytes or is a surrogate. -/
theorem lead?_of_three {v : Nat} (low : 0x800 ≤ v) (high : v ≤ 0xFFFF)
    (scalar : v < 0xD800 ∨ 0xDFFF < v) :
    ∃ second : ByteRange, lead? (UInt8.ofNat (v / 4096 % 16 + 224)) =
        some ⟨v / 4096, [second, tail]⟩ ∧
      second.low ≤ v / 64 % 64 + 128 ∧ v / 64 % 64 + 128 ≤ second.high := by
  rw [lead?_ofNat (by omega), if_neg (by omega), if_neg (by omega), if_neg (by omega)]
  rcases (by omega : v / 4096 = 0 ∨ v / 4096 = 0xD ∨ v / 4096 ≠ 0 ∧ v / 4096 ≠ 0xD) with
    overlong | surrogate | plain
  · rw [overlong, if_pos (by omega)]
    exact ⟨_, rfl, by simp only; omega⟩
  · rw [surrogate, if_neg (by omega), if_pos (by omega)]
    exact ⟨_, rfl, by simp only; omega⟩
  · have payload : v / 4096 % 16 + 224 - 0xE0 = v / 4096 := by omega
    rw [if_neg (by omega), if_neg (by omega), if_pos (by omega), payload]
    exact ⟨_, rfl, tail_six _⟩

/-- The second byte is narrowed only where the point would fit three bytes or is too large. -/
theorem lead?_of_four {v : Nat} (low : 0x10000 ≤ v) (high : v < 0x110000) :
    ∃ second : ByteRange, lead? (UInt8.ofNat (v / 262144 % 8 + 240)) =
        some ⟨v / 262144, [second, tail, tail]⟩ ∧
      second.low ≤ v / 4096 % 64 + 128 ∧ v / 4096 % 64 + 128 ≤ second.high := by
  rw [lead?_ofNat (by omega), if_neg (by omega), if_neg (by omega), if_neg (by omega),
    if_neg (by omega), if_neg (by omega), if_neg (by omega)]
  rcases (by omega : v / 262144 = 0 ∨ v / 262144 = 4 ∨ v / 262144 ≠ 0 ∧ v / 262144 < 4) with
    overlong | last | plain
  · rw [overlong, if_pos (by omega)]
    exact ⟨_, rfl, by simp only; omega⟩
  · rw [last, if_neg (by omega), if_neg (by omega), if_pos (by omega)]
    exact ⟨_, rfl, by simp only; omega⟩
  · have payload : v / 262144 % 8 + 240 - 0xF0 = v / 262144 := by omega
    rw [if_neg (by omega), if_pos (by omega), payload]
    exact ⟨_, rfl, tail_six _⟩

theorem scanOne_of_lead {b : UInt8} {lead : Lead} (announced : lead? b = some lead) {rest : Bytes}
    {c : Char} {behind : Bytes}
    (followed : follow lead.payload lead.following rest = (some c.toNat, behind)) :
    scanOne b rest = (some c, behind) := by
  simp only [scanOne, announced, followed, Option.map_some, Char.ofNat_toNat]

theorem scanOne_encodeChar (c : Char) (rest : Bytes) :
    ∃ b tail, encodeChar c = b :: tail ∧ scanOne b (tail ++ rest) = (some c, rest) := by
  have valid : c.toNat < 0xD800 ∨ 0xDFFF < c.toNat ∧ c.toNat < 0x110000 := c.valid
  rw [encodeChar, String.utf8EncodeChar]
  change ∃ b tail, (if c.toNat ≤ 127 then _ else if c.toNat ≤ 2047 then _
    else if c.toNat ≤ 65535 then _ else _) = b :: tail ∧ _
  split
  · next one =>
    have announced : lead? (UInt8.ofNat c.toNat) = some ⟨c.toNat, []⟩ := by
      rw [lead?_ofNat (by omega), if_pos (by omega)]
    exact ⟨_, _, rfl, scanOne_of_lead announced rfl⟩
  · split
    · next two =>
      refine ⟨_, _, rfl, scanOne_of_lead (lead?_of_two (by omega) two) ?_⟩
      change follow _ _ (UInt8.ofNat (c.toNat % 64 + 128) :: rest) = _
      have point : c.toNat / 64 * 64 + c.toNat % 64 = c.toNat := by omega
      rw [follow_six (tail_six _), point, follow]
    · split
      · next three =>
        obtain ⟨second, announced, inside⟩ := lead?_of_three (v := c.toNat) (by omega) three (by omega)
        refine ⟨_, _, rfl, scanOne_of_lead announced ?_⟩
        change follow _ _ (UInt8.ofNat (c.toNat / 64 % 64 + 128) ::
          UInt8.ofNat (c.toNat % 64 + 128) :: rest) = _
        have point : (c.toNat / 4096 * 64 + c.toNat / 64 % 64) * 64 + c.toNat % 64 = c.toNat := by omega
        rw [follow_six inside, follow_six (tail_six _), point, follow]
      · obtain ⟨second, announced, inside⟩ := lead?_of_four (v := c.toNat) (by omega) (by omega)
        refine ⟨_, _, rfl, scanOne_of_lead announced ?_⟩
        change follow _ _ (UInt8.ofNat (c.toNat / 4096 % 64 + 128) ::
          UInt8.ofNat (c.toNat / 64 % 64 + 128) :: UInt8.ofNat (c.toNat % 64 + 128) :: rest) = _
        have point : ((c.toNat / 262144 * 64 + c.toNat / 4096 % 64) * 64 + c.toNat / 64 % 64) * 64 +
            c.toNat % 64 = c.toNat := by omega
        rw [follow_six inside, follow_six (tail_six _), follow_six (tail_six _), point, follow]

theorem scan_cons (b : UInt8) (rest : Bytes) :
    scan (b :: rest) = (scanOne b rest).1 :: scan (scanOne b rest).2 := by
  rw [scan]

theorem scan_encode (text : List Char) : scan (encode text) = text.map some := by
  induction text with
  | nil => rw [encode, List.flatMap_nil, scan, List.map_nil]
  | cons c text ih =>
    obtain ⟨b, tail, bytes, one⟩ := scanOne_encodeChar c (encode text)
    have split : encode (c :: text) = b :: (tail ++ encode text) := by
      rw [encode, List.flatMap_cons, bytes]
      rfl
    rw [split, scan_cons, one, ih, List.map_cons]

theorem mapM_id_eq_some_iff {cut : List (Option Char)} {text : List Char} :
    cut.mapM id = some text ↔ cut = text.map some := by
  induction cut generalizing text with
  | nil => cases text <;> simp
  | cons first cut ih =>
    cases first with
    | none => cases text <;> simp
    | some c =>
      simp only [List.mapM_cons, id, Option.bind_eq_bind, Option.bind_some, Option.pure_def,
        Option.bind_eq_some_iff, Option.some.injEq]
      cases text with
      | nil => simp
      | cons d text =>
        simp only [ih, List.cons.injEq, List.map_cons, Option.some.injEq]
        constructor
        · rintro ⟨_, rest, rfl, rfl⟩
          exact ⟨rfl, rest⟩
        · rintro ⟨rfl, rest⟩
          exact ⟨_, rest, rfl, rfl⟩

theorem decode?_encode (text : List Char) : decode? (encode text) = some text := by
  rw [decode?, mapM_id_eq_some_iff]
  exact scan_encode text

theorem encode_injective : Function.Injective encode := by
  intro s t same
  have read := decode?_encode s
  rw [same, decode?_encode, Option.some.injEq] at read
  exact read.symm

/-! The other direction: a character that was cut off was encoded in those bytes. -/

theorem val_toNat_ofNat {v : Nat} (valid : v.isValidChar) : (Char.ofNat v).val.toNat = v := by
  rw [Char.ofNat, dif_pos valid]
  rfl

theorem ofNat_eq {b : UInt8} {n : Nat} (number : n = b.toNat) : UInt8.ofNat n = b := by
  rw [number, UInt8.ofNat_toNat]

theorem encodeChar_ofNat {v : Nat} (valid : v.isValidChar) :
    encodeChar (Char.ofNat v) =
      if v ≤ 0x7F then [UInt8.ofNat v]
      else if v ≤ 0x7FF then [UInt8.ofNat (v / 64 % 32 + 192), UInt8.ofNat (v % 64 + 128)]
      else if v ≤ 0xFFFF then [UInt8.ofNat (v / 4096 % 16 + 224), UInt8.ofNat (v / 64 % 64 + 128),
        UInt8.ofNat (v % 64 + 128)]
      else [UInt8.ofNat (v / 262144 % 8 + 240), UInt8.ofNat (v / 4096 % 64 + 128),
        UInt8.ofNat (v / 64 % 64 + 128), UInt8.ofNat (v % 64 + 128)] := by
  simp only [encodeChar, String.utf8EncodeChar, val_toNat_ofNat valid]

theorem follow_cons_some {point p : Nat} {r : ByteRange} {ranges : List ByteRange}
    {bytes behind : Bytes} (followed : follow point (r :: ranges) bytes = (some p, behind)) :
    ∃ b rest, bytes = b :: rest ∧ (r.low ≤ b.toNat ∧ b.toNat ≤ r.high) ∧
      follow (point * 64 + b.toNat % 64) ranges rest = (some p, behind) := by
  cases bytes with
  | nil =>
    rw [follow] at followed
    cases followed
  | cons b rest =>
    rw [follow] at followed
    split at followed
    · next contained =>
      simp only [ByteRange.contains, Bool.and_eq_true, decide_eq_true_eq] at contained
      exact ⟨b, rest, rfl, contained, followed⟩
    · cases followed

theorem follow_nil_some {point p : Nat} {bytes behind : Bytes}
    (followed : follow point [] bytes = (some p, behind)) : point = p ∧ bytes = behind := by
  rw [follow] at followed
  cases followed
  exact ⟨rfl, rfl⟩

/-- What a leading byte announces, by the number of bytes that follow it. -/
theorem lead?_cases {b : UInt8} {lead : Lead} (announced : lead? b = some lead) :
    (b.toNat < 0x80 ∧ lead = ⟨b.toNat, []⟩) ∨
      (0xC2 ≤ b.toNat ∧ b.toNat < 0xE0 ∧ lead = ⟨b.toNat - 0xC0, [tail]⟩) ∨
      (∃ second : ByteRange, lead = ⟨b.toNat - 0xE0, [second, tail]⟩ ∧
        0xE0 ≤ b.toNat ∧ b.toNat < 0xF0 ∧ 0x80 ≤ second.low ∧ second.high ≤ 0xBF ∧
        (b.toNat = 0xE0 → 0xA0 ≤ second.low) ∧ (b.toNat = 0xED → second.high ≤ 0x9F)) ∨
      (∃ second : ByteRange, lead = ⟨b.toNat - 0xF0, [second, tail, tail]⟩ ∧
        0xF0 ≤ b.toNat ∧ b.toNat < 0xF5 ∧ 0x80 ≤ second.low ∧ second.high ≤ 0xBF ∧
        (b.toNat = 0xF0 → 0x90 ≤ second.low) ∧ (b.toNat = 0xF4 → second.high ≤ 0x8F)) := by
  have zero {n m : Nat} (same : n = m) : n - m = 0 := by omega
  simp only [lead?] at announced
  split at announced
  · next one => exact .inl ⟨one, (Option.some.inj announced).symm⟩
  right
  split at announced
  · cases announced
  split at announced
  · exact .inl ⟨by omega, by assumption, (Option.some.inj announced).symm⟩
  right
  split at announced
  · next first =>
    refine .inl ⟨⟨0xA0, 0xBF⟩, ?_, by simp only; omega⟩
    rw [zero first]
    exact (Option.some.inj announced).symm
  split at announced
  · next surrogate =>
    refine .inl ⟨⟨0x80, 0x9F⟩, ?_, by simp only; omega⟩
    rw [surrogate]
    exact (Option.some.inj announced).symm
  split at announced
  · exact .inl ⟨tail, (Option.some.inj announced).symm, by simp only [tail]; omega⟩
  right
  split at announced
  · next first =>
    refine ⟨⟨0x90, 0xBF⟩, ?_, by simp only; omega⟩
    rw [zero first]
    exact (Option.some.inj announced).symm
  split at announced
  · exact ⟨tail, (Option.some.inj announced).symm, by simp only [tail]; omega⟩
  split at announced
  · next last =>
    refine ⟨⟨0x80, 0x8F⟩, ?_, by simp only; omega⟩
    rw [last]
    exact (Option.some.inj announced).symm
  · cases announced

/-- A code point that was read behind a leading byte is written with these bytes and no others. -/
theorem encodeChar_of_scanOne {b : UInt8} {rest behind : Bytes} {c : Char}
    (read : scanOne b rest = (some c, behind)) : encodeChar c ++ behind = b :: rest := by
  rw [scanOne] at read
  split at read
  · cases read
  next lead announced =>
  obtain ⟨p, followed, rfl⟩ : ∃ p, follow lead.payload lead.following rest = (some p, behind) ∧
      Char.ofNat p = c := by
    rw [Prod.mk.injEq, Option.map_eq_some_iff] at read
    obtain ⟨⟨p, some, point⟩, left⟩ := read
    exact ⟨p, Prod.ext some left, point⟩
  have inTail {n : Nat} : tail.low ≤ n ∧ n ≤ tail.high ↔ 0x80 ≤ n ∧ n ≤ 0xBF := Iff.rfl
  rcases lead?_cases announced with ⟨one, rfl⟩ | ⟨low, high, rfl⟩ |
    ⟨second, rfl, low, high, bounds⟩ | ⟨second, rfl, low, high, bounds⟩
  · obtain ⟨rfl, rfl⟩ := follow_nil_some followed
    simp only
    rw [encodeChar_ofNat (.inl (by omega)), if_pos (by omega), UInt8.ofNat_toNat]
    rfl
  · obtain ⟨b₁, rest, rfl, in₁, followed⟩ := follow_cons_some followed
    obtain ⟨rfl, rfl⟩ := follow_nil_some followed
    simp only [inTail] at in₁ ⊢
    rw [encodeChar_ofNat (.inl (by omega)), if_neg (by omega), if_pos (by omega),
      ofNat_eq (b := b) (by omega), ofNat_eq (b := b₁) (by omega)]
    rfl
  · obtain ⟨b₁, rest, rfl, in₁, followed⟩ := follow_cons_some followed
    obtain ⟨b₂, rest, rfl, in₂, followed⟩ := follow_cons_some followed
    obtain ⟨rfl, rfl⟩ := follow_nil_some followed
    simp only [inTail] at in₂ ⊢
    have valid : ((b.toNat - 0xE0) * 64 + b₁.toNat % 64) * 64 + b₂.toNat % 64 < 0xD800 ∨
        0xDFFF < ((b.toNat - 0xE0) * 64 + b₁.toNat % 64) * 64 + b₂.toNat % 64 := by omega
    rw [encodeChar_ofNat (valid.imp_right fun above => ⟨above, by omega⟩), if_neg (by omega),
      if_neg (by omega), if_pos (by omega), ofNat_eq (b := b) (by omega),
      ofNat_eq (b := b₁) (by omega), ofNat_eq (b := b₂) (by omega)]
    rfl
  · obtain ⟨b₁, rest, rfl, in₁, followed⟩ := follow_cons_some followed
    obtain ⟨b₂, rest, rfl, in₂, followed⟩ := follow_cons_some followed
    obtain ⟨b₃, rest, rfl, in₃, followed⟩ := follow_cons_some followed
    obtain ⟨rfl, rfl⟩ := follow_nil_some followed
    simp only [inTail] at in₂ in₃ ⊢
    rw [encodeChar_ofNat (.inr ⟨by omega, by omega⟩), if_neg (by omega), if_neg (by omega),
      if_neg (by omega), ofNat_eq (b := b) (by omega), ofNat_eq (b := b₁) (by omega),
      ofNat_eq (b := b₂) (by omega), ofNat_eq (b := b₃) (by omega)]
    rfl

theorem encode_of_scan {bytes : Bytes} {text : List Char} (cut : scan bytes = text.map some) :
    encode text = bytes := by
  fun_induction scan bytes generalizing text with
  | case1 =>
    rw [List.map_eq_nil_iff.mp cut.symm]
    rfl
  | case2 b rest _ ih =>
    cases text with
    | nil => cases cut
    | cons c text =>
      rw [List.map_cons, List.cons.injEq] at cut
      have first : scanOne b rest = (some c, encode text) := Prod.ext cut.1 (ih cut.2).symm
      rw [encode, List.flatMap_cons]
      exact encodeChar_of_scanOne first

/-- Strict decoding reads the bytes of a text and no others. -/
theorem decode?_eq_some_iff {bytes : Bytes} {text : List Char} :
    decode? bytes = some text ↔ bytes = encode text := by
  constructor
  · intro read
    rw [decode?, mapM_id_eq_some_iff] at read
    exact (encode_of_scan read).symm
  · rintro rfl
    exact decode?_encode text

end ScriptHost.Utf8
