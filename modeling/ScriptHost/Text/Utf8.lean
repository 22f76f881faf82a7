/-! Byte strings read as UTF-8. `scan` cuts bytes into characters and maximal ill-formed
prefixes; strict and lossy decoding are two views of the same cut. -/
namespace ScriptHost.Utf8

abbrev Bytes := List UInt8

def encodeChar (c : Char) : Bytes := String.utf8EncodeChar c

def encode (text : List Char) : Bytes := text.flatMap encodeChar

def ofString (s : String) : Bytes := encode s.toList

structure ByteRange where
  low : Nat
  high : Nat

def ByteRange.contains (r : ByteRange) (b : UInt8) : Bool := r.low ≤ b.toNat && b.toNat ≤ r.high

def tail : ByteRange := ⟨0x80, 0xBF⟩

/-- What a leading byte announces: its own share of the code point and the ranges of the bytes
that must follow it. -/
structure Lead where
  payload : Nat
  following : List ByteRange

/-- The second byte is narrowed after E0 and F0 (overlong forms), ED (surrogates) and F4
(beyond U+10FFFF). -/
def lead? (b : UInt8) : Option Lead :=
  let n := b.toNat
  if n < 0x80 then some ⟨n, []⟩
  else if n < 0xC2 then none
  else if n < 0xE0 then some ⟨n - 0xC0, [tail]⟩
  else if n = 0xE0 then some ⟨0, [⟨0xA0, 0xBF⟩, tail]⟩
  else if n = 0xED then some ⟨0xD, [⟨0x80, 0x9F⟩, tail]⟩
  else if n < 0xF0 then some ⟨n - 0xE0, [tail, tail]⟩
  else if n = 0xF0 then some ⟨0, [⟨0x90, 0xBF⟩, tail, tail]⟩
  else if n < 0xF4 then some ⟨n - 0xF0, [tail, tail, tail]⟩
  else if n = 0xF4 then some ⟨4, [⟨0x80, 0x8F⟩, tail, tail]⟩
  else none

/-- Takes one byte for each range; stops in front of the first byte outside its range. -/
def follow (point : Nat) : List ByteRange → Bytes → Option Nat × Bytes
  | [], rest => (some point, rest)
  | _ :: _, [] => (none, [])
  | r :: ranges, b :: rest =>
    if r.contains b then follow (point * 64 + b.toNat % 64) ranges rest else (none, b :: rest)

theorem follow_length_le (point : Nat) (ranges : List ByteRange) (bytes : Bytes) :
    (follow point ranges bytes).2.length ≤ bytes.length := by
  fun_induction follow point ranges bytes with
  | case1 => simp
  | case2 => simp
  | case3 _ _ _ _ _ _ ih => simp only [List.length_cons]; omega
  | case4 => simp

/-- One character, or one maximal ill-formed prefix, and the bytes behind it. -/
def scanOne (b : UInt8) (rest : Bytes) : Option Char × Bytes :=
  match lead? b with
  | none => (none, rest)
  | some lead =>
    let (point, rest) := follow lead.payload lead.following rest
    (point.map Char.ofNat, rest)

theorem scanOne_length_le (b : UInt8) (rest : Bytes) : (scanOne b rest).2.length ≤ rest.length := by
  unfold scanOne
  split
  · exact Nat.le_refl _
  · exact follow_length_le _ _ _

/-- Cuts bytes into characters; `none` stands for a maximal ill-formed prefix of a character. -/
def scan : Bytes → List (Option Char)
  | [] => []
  | b :: rest =>
    have := scanOne_length_le b rest
    (scanOne b rest).1 :: scan (scanOne b rest).2
  termination_by bytes => bytes.length
  decreasing_by simp only [List.length_cons]; omega

def decode? (bytes : Bytes) : Option (List Char) := (scan bytes).mapM id

def replacement : Char := '\uFFFD'

/-- Every maximal ill-formed prefix becomes one U+FFFD. -/
def decodeLossy (bytes : Bytes) : List Char := (scan bytes).map (·.getD replacement)

end ScriptHost.Utf8
