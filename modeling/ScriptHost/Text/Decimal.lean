/-! Decimal integers as texts: an optional sign and one or more ASCII digits, of any length. -/
namespace ScriptHost.Decimal

def natural? (text : List Char) : Option Nat :=
  if text ≠ [] ∧ text.all Char.isDigit then some (Nat.ofDigitChars 10 text 0) else none

theorem toNat_of_isDigit {c : Char} (digit : c.isDigit) : 0x30 ≤ c.toNat ∧ c.toNat ≤ 0x39 := by
  simp only [Char.isDigit, ge_iff_le, Bool.and_eq_true, decide_eq_true_eq, UInt32.le_iff_toNat_le]
    at digit
  exact digit

theorem all_isDigit_toDigits (n : Nat) : (Nat.toDigits 10 n).all Char.isDigit := by
  simpa using fun c member => Nat.isDigit_of_mem_toDigits (by decide) (by decide) member

theorem natural?_toDigits (n : Nat) : natural? (Nat.toDigits 10 n) = some n := by
  simp [natural?, all_isDigit_toDigits, Nat.toDigits_ne_nil]

/-- Splits off a leading sign; `true` stands for a minus. -/
def splitSign : List Char → Bool × List Char
  | '+' :: rest => (false, rest)
  | '-' :: rest => (true, rest)
  | text => (false, text)

def integer? (text : List Char) : Option Int :=
  let (negative, digits) := splitSign text
  (natural? digits).map fun n => if negative then -(n : Int) else n

def int64? (text : List Char) : Option Int64 :=
  match integer? text with
  | none => none
  | some n => if Int64.minValue.toInt ≤ n ∧ n ≤ Int64.maxValue.toInt then some (Int64.ofInt n) else none

/-- A natural number below 2^64; a plus sign may precede it, a minus sign may not. -/
def nat64? (text : List Char) : Option Nat :=
  let digits := match text with
    | '+' :: rest => rest
    | _ => text
  (natural? digits).filter (· < UInt64.size)

theorem splitSign_of_digits {text : List Char} (digits : text.all Char.isDigit) :
    splitSign text = (false, text) := by
  unfold splitSign
  split
  · simp at digits
  · simp at digits
  · rfl

theorem toList_toString_ofNat (n : Nat) : (toString (Int.ofNat n)).toList = Nat.toDigits 10 n :=
  Nat.toList_repr

theorem toList_toString_negSucc (n : Nat) :
    (toString (Int.negSucc n)).toList = '-' :: Nat.toDigits 10 (n + 1) := by
  change ("-" ++ Nat.repr (n + 1)).toList = _
  rw [String.toList_append, Nat.toList_repr]
  rfl

/-! Every integer is read back from its own text. -/

theorem integer?_toString (n : Int) : integer? (toString n).toList = some n := by
  cases n with
  | ofNat n =>
    rw [toList_toString_ofNat, integer?, splitSign_of_digits (all_isDigit_toDigits n)]
    simp [natural?_toDigits]
  | negSucc n =>
    rw [toList_toString_negSucc, integer?]
    simp only [splitSign, natural?_toDigits]
    rfl

theorem int64?_toString (n : Int64) : int64? (toString n).toList = some n := by
  have whole : integer? (toString n).toList = some n.toInt := integer?_toString n.toInt
  have low := Int64.minValue_le_toInt n
  have high := Int64.toInt_le n
  rw [int64?, whole]
  simp only
  rw [if_pos ⟨low, high⟩, Int64.ofInt_toInt]

theorem toList_toString_ne_nil (n : Int) : (toString n).toList ≠ [] := by
  cases n with
  | ofNat n =>
    rw [toList_toString_ofNat]
    exact Nat.toDigits_ne_nil
  | negSucc n =>
    rw [toList_toString_negSucc]
    exact List.cons_ne_nil _ _

theorem isDigit_or_minus_of_mem_toString {n : Int} {c : Char} (member : c ∈ (toString n).toList) :
    c.isDigit ∨ c = '-' := by
  cases n with
  | ofNat n =>
    rw [toList_toString_ofNat] at member
    exact .inl (List.all_eq_true.mp (all_isDigit_toDigits n) c member)
  | negSucc n =>
    rw [toList_toString_negSucc] at member
    rcases List.mem_cons.mp member with minus | digit
    · exact .inr minus
    · exact .inl (List.all_eq_true.mp (all_isDigit_toDigits (n + 1)) c digit)

end ScriptHost.Decimal
