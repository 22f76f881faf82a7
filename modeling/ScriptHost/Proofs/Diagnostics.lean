import Mathlib.Data.List.Basic
import ScriptHost.Error
import ScriptHost.Text.Decimal

/-! What the text of a diagnostic tells. Every text but that of a console failure is one line of
printable ASCII, and errors that differ have texts that differ: the words in front of the fields tell
the causes apart, and the fields can be read off what follows. -/
namespace ScriptHost

/-- Printable ASCII. -/
def IsPrintable (c : Char) : Prop := 0x20 ≤ c.toNat ∧ c.toNat ≤ 0x7E

instance (c : Char) : Decidable (IsPrintable c) := inferInstanceAs (Decidable (_ ∧ _))

def IsPrintableText (s : String) : Prop := ∀ c ∈ s.toList, IsPrintable c

instance (s : String) : Decidable (IsPrintableText s) :=
  List.decidableBAll IsPrintable s.toList

theorem IsPrintableText.append {s t : String} (first : IsPrintableText s)
    (second : IsPrintableText t) : IsPrintableText (s ++ t) := by
  intro c member
  rw [String.toList_append] at member
  rcases List.mem_append.mp member with left | right
  · exact first c left
  · exact second c right

/-! Numbers in decimal and code points in hexadecimal digits. -/

namespace Decimal

theorem toString_nat_inj {m n : Nat} : toString m = toString n ↔ m = n := by
  constructor
  · intro same
    have digits : Nat.toDigits 10 m = Nat.toDigits 10 n := by
      rw [← Nat.toList_repr, ← Nat.toList_repr]
      exact congrArg String.toList same
    have read := natural?_toDigits m
    rw [digits, natural?_toDigits] at read
    exact (Option.some.inj read).symm
  · rintro rfl
    rfl

theorem toString_int64_inj {m n : Int64} : toString m = toString n ↔ m = n := by
  constructor
  · intro same
    have read := int64?_toString m
    rw [same, int64?_toString] at read
    exact (Option.some.inj read).symm
  · rintro rfl
    rfl

theorem isDigit_or_minus_of_mem_nat {n : Nat} {c : Char} (member : c ∈ (toString n).toList) :
    c.isDigit ∨ c = '-' :=
  isDigit_or_minus_of_mem_toString (n := Int.ofNat n) member

theorem comma_notMem_nat (n : Nat) : ',' ∉ (toString n).toList := by
  intro member
  have other : ¬ (','.isDigit ∨ ',' = '-') := by decide
  exact other (isDigit_or_minus_of_mem_nat member)

theorem comma_notMem_int64 (n : Int64) : ',' ∉ (toString n).toList := by
  intro member
  have other : ¬ (','.isDigit ∨ ',' = '-') := by decide
  exact other (isDigit_or_minus_of_mem_toString (n := n.toInt) member)

theorem isPrintable_of_isDigit {c : Char} (digit : c.isDigit ∨ c = '-') : IsPrintable c := by
  rcases digit with digit | rfl
  · have code := Decimal.toNat_of_isDigit digit
    exact ⟨by omega, by omega⟩
  · decide

end Decimal

namespace Escape

theorem digitChar_inj {m n : Nat} (hm : m < 16) (hn : n < 16)
    (same : Nat.digitChar m = Nat.digitChar n) : m = n := by
  have apart : ∀ i < 16, ∀ j < 16, Nat.digitChar i = Nat.digitChar j → i = j := by decide
  exact apart m hm n hn same

theorem isPrintable_digitChar {n : Nat} (hn : n < 16) : IsPrintable (Nat.digitChar n) := by
  have all : ∀ i < 16, IsPrintable (Nat.digitChar i) := by decide
  exact all n hn

theorem isPrintable_of_mem_hex {n : Nat} {c : Char} (member : c ∈ Nat.toDigits 16 n) :
    IsPrintable c := by
  induction n using Nat.strongRecOn with
  | ind n ih =>
    rw [Nat.toDigits_eq_if (by decide)] at member
    split at member
    · next small =>
      rw [List.mem_singleton.mp member]
      exact isPrintable_digitChar small
    · rcases List.mem_append.mp member with front | last
      · exact ih (n / 16) (by omega) front
      · rw [List.mem_singleton.mp last]
        exact isPrintable_digitChar (by omega)

/-- Hexadecimal digits are read from the last one on. -/
theorem hex_inj {m n : Nat} (same : Nat.toDigits 16 m = Nat.toDigits 16 n) : m = n := by
  induction m using Nat.strongRecOn generalizing n with
  | ind m ih =>
    have front (k : Nat) : 0 < (Nat.toDigits 16 k).length := Nat.length_toDigits_pos
    have length := congrArg List.length same
    rw [Nat.toDigits_eq_if (by decide), Nat.toDigits_eq_if (n := n) (by decide)] at same length
    split at same <;> split at same
    · next hm hn => exact digitChar_inj hm hn (List.singleton_inj.mp same)
    · next hm hn =>
      rw [if_pos hm, if_neg hn, List.length_append] at length
      exact absurd length (Nat.ne_of_lt (Nat.lt_add_of_pos_left (front _)))
    · next hm hn =>
      rw [if_neg hm, if_pos hn, List.length_append] at length
      exact absurd length (Nat.ne_of_gt (Nat.lt_add_of_pos_left (front _)))
    · obtain ⟨fronts, lasts⟩ := List.append_inj' same rfl
      have quotients := ih (m / 16) (by omega) fronts
      have digits := digitChar_inj (by omega) (by omega) (List.singleton_inj.mp lasts)
      omega

/-- A character by itself is kept, is written by a letter, or is written by its number. -/
theorem ofChar_alone_cases (c : Char) :
    (IsPrintable c ∧ ofChar alone c = [c]) ∨
    (∃ l, letter? c = some l ∧ ofChar alone c = ['\\', l]) ∨
    ofChar alone c = '\\' :: 'u' :: '\x7b' :: (Nat.toDigits 16 c.toNat ++ ['\x7d']) := by
  by_cases kept : alone.keeps c
  · have printable := kept
    simp only [alone, Bool.and_eq_true, decide_eq_true_eq] at printable
    exact .inl ⟨⟨printable.1.2, printable.2⟩, if_pos kept⟩
  · right
    rw [ofChar, if_neg kept]
    cases letter : letter? c with
    | some l => exact .inl ⟨l, rfl, rfl⟩
    | none => exact .inr rfl

theorem eq_of_letter {c d l : Char} (first : letter? c = some l) (second : letter? d = some l) :
    c = d := by
  unfold letter? at first second
  split at first <;> cases first <;> split at second <;> cases second <;> rfl

theorem isPrintable_of_letter {c l : Char} (letter : letter? c = some l) : IsPrintable l := by
  unfold letter? at letter
  split at letter <;> cases letter <;> decide

theorem ofChar_alone_inj {c d : Char} (same : ofChar alone c = ofChar alone d) : c = d := by
  rcases ofChar_alone_cases c with ⟨_, first⟩ | ⟨l, letter, first⟩ | first <;>
    rcases ofChar_alone_cases d with ⟨_, second⟩ | ⟨k, other, second⟩ | second <;>
    rw [first, second] at same
  · exact List.singleton_inj.mp same
  · cases same
  · cases same
  · cases same
  · cases same
    exact eq_of_letter letter other
  · cases same
  · cases same
  · cases same
  · simp only [List.cons.injEq, true_and, List.append_cancel_right_eq] at same
    exact Char.toNat_inj.mp (hex_inj same)

theorem isPrintable_of_mem_alone {c d : Char} (member : d ∈ ofChar alone c) : IsPrintable d := by
  rcases ofChar_alone_cases c with ⟨printable, form⟩ | ⟨l, letter, form⟩ | form <;> rw [form] at member
  · rw [List.mem_singleton.mp member]
    exact printable
  · rcases List.mem_pair.mp member with rfl | rfl
    · decide
    · exact isPrintable_of_letter letter
  · simp only [List.mem_cons, List.mem_append, List.not_mem_nil, or_false] at member
    rcases member with rfl | rfl | rfl | digit | rfl
    · decide
    · decide
    · decide
    · exact isPrintable_of_mem_hex digit
    · decide

end Escape

theorem Decimal.isPrintable_nat (n : Nat) : IsPrintableText (toString n) := fun _ member =>
  isPrintable_of_isDigit (isDigit_or_minus_of_mem_nat member)

theorem Decimal.isPrintable_int64 (n : Int64) : IsPrintableText (toString n) := fun _ member =>
  isPrintable_of_isDigit (isDigit_or_minus_of_mem_toString (n := n.toInt) member)

theorem ObjectKind.isPrintable_name (kind : ObjectKind) : IsPrintableText kind.name := by
  cases kind <;> decide

theorem TypeTag.isPrintable_name (tag : TypeTag) : IsPrintableText tag.name := by
  cases tag <;> decide

theorem ObjectKind.name_inj {a b : ObjectKind} (same : a.name = b.name) : a = b := by
  cases a <;> cases b <;> first | rfl | simp [name] at same

theorem TypeTag.name_inj {a b : TypeTag} (same : a.name = b.name) : a = b := by
  cases a <;> cases b <;> first | rfl | simp [name] at same

theorem TypeTag.comma_notMem_name (tag : TypeTag) : ',' ∉ tag.name.toList := by
  cases tag <;> decide

namespace RuntimeError

def openings : List String :=
  ["Out of memory for ",
    "Trying to add more initial elements to full list. Length is ",
    "List initialization is not complete. Length is ",
    "Index out of bounds. Trying to access ",
    "Start index out of bounds. Trying to access ",
    "End index out of bounds. Trying to access ",
    "Start index is greater than end index. start=",
    "List length must be non-negative, got ",
    "Reaching unexpected EOF.",
    "Unknown type: ",
    "Type tag mismatch: expected ",
    "Use of a ",
    "I/O error: "]

/-- The words of a message in front of its first field. -/
def opening : RuntimeError → String
  | .capacityExhausted _ => "Out of memory for "
  | .initOverflow _ => "Trying to add more initial elements to full list. Length is "
  | .initIncomplete .. => "List initialization is not complete. Length is "
  | .indexOutOfBounds .. => "Index out of bounds. Trying to access "
  | .sliceStartOutOfBounds .. => "Start index out of bounds. Trying to access "
  | .sliceEndOutOfBounds .. => "End index out of bounds. Trying to access "
  | .sliceReversed .. => "Start index is greater than end index. start="
  | .negativeLength _ => "List length must be non-negative, got "
  | .unexpectedEof => "Reaching unexpected EOF."
  | .unknownTag _ => "Unknown type: "
  | .tagMismatch .. => "Type tag mismatch: expected "
  | .staleHandle _ => "Use of a "
  | .io _ => "I/O error: "

def details : RuntimeError → String
  | .capacityExhausted kind => kind.name
  | .initOverflow length => toString length
  | .initIncomplete length pending =>
    toString length ++ (", uninitialized length is " ++ toString pending)
  | .indexOutOfBounds index length | .sliceStartOutOfBounds index length
  | .sliceEndOutOfBounds index length => toString index ++ (", length is " ++ toString length)
  | .sliceReversed start stop => toString start ++ (", end=" ++ toString stop)
  | .negativeLength length => toString length
  | .unexpectedEof => ""
  | .unknownTag letter => String.ofList (Escape.ofChar Escape.alone letter)
  | .tagMismatch expected found => expected.name ++ (", found " ++ found.name)
  | .staleHandle kind => kind.name ++ " that was already released"
  | .io reason => reason

theorem message_eq (e : RuntimeError) : e.message = e.opening ++ e.details := by
  cases e with
  | initIncomplete | indexOutOfBounds | sliceStartOutOfBounds | sliceEndOutOfBounds | sliceReversed
  | tagMismatch =>
    change _ = _ ++ (_ ++ (_ ++ _))
    rw [← String.append_assoc, ← String.append_assoc]
    rfl
  | staleHandle kind =>
    change _ = _ ++ (_ ++ _)
    rw [← String.append_assoc]
    rfl
  | _ => rfl

theorem opening_mem (e : RuntimeError) : e.opening ∈ openings := by
  cases e <;> simp [opening, openings]

theorem openings_apart : ∀ s ∈ openings, ∀ t ∈ openings, s.toList <+: t.toList → s = t := by
  decide +kernel

/-- Two fields can be read off their text if the only comma stands between them. -/
theorem fields_inj {a b c d words : String} (same : a ++ (words ++ b) = c ++ (words ++ d))
    (first : ',' ∉ c.toList) (comma : words.toList.head? = some ',')
    (last : ',' ∉ words.toList.tail ++ d.toList) : a = c ∧ b = d := by
  have split : words.toList = ',' :: words.toList.tail := (List.cons_head?_tail comma).symm
  have chars := congrArg String.toList same
  simp only [String.toList_append] at chars
  rw [split, List.cons_append, List.cons_append, eq_comm,
    List.append_cons_inj_of_notMem first last] at chars
  exact ⟨String.toList_inj.mp chars.1.symm,
    String.toList_inj.mp (List.append_cancel_left chars.2.2).symm⟩

/-- An index and a length behind it. -/
theorem bounds_inj {i j : Int64} {m n : Nat}
    (same : toString i ++ (", length is " ++ toString m) =
      toString j ++ (", length is " ++ toString n)) : i = j ∧ m = n := by
  obtain ⟨first, last⟩ := fields_inj same (Decimal.comma_notMem_int64 j) (by decide)
    (List.not_mem_append (by decide) (Decimal.comma_notMem_nat n))
  exact ⟨Decimal.toString_int64_inj.mp first, Decimal.toString_nat_inj.mp last⟩

theorem eq_of_opening {a b : RuntimeError} (cause : a.opening = b.opening)
    (same : a.details = b.details) : a = b := by
  cases a with
  | capacityExhausted kind =>
    cases b with
    | capacityExhausted other => rw [ObjectKind.name_inj same]
    | _ => simp [opening] at cause
  | initOverflow length =>
    cases b with
    | initOverflow other => rw [Decimal.toString_nat_inj.mp same]
    | _ => simp [opening] at cause
  | initIncomplete length pending =>
    cases b with
    | initIncomplete other missing =>
      obtain ⟨lengths, pendings⟩ := fields_inj same (Decimal.comma_notMem_nat other) (by decide)
        (List.not_mem_append (by decide) (Decimal.comma_notMem_nat missing))
      rw [Decimal.toString_nat_inj.mp lengths, Decimal.toString_nat_inj.mp pendings]
    | _ => simp [opening] at cause
  | indexOutOfBounds index length =>
    cases b with
    | indexOutOfBounds other size =>
      obtain ⟨rfl, rfl⟩ := bounds_inj same
      rfl
    | _ => simp [opening] at cause
  | sliceStartOutOfBounds start length =>
    cases b with
    | sliceStartOutOfBounds other size =>
      obtain ⟨rfl, rfl⟩ := bounds_inj same
      rfl
    | _ => simp [opening] at cause
  | sliceEndOutOfBounds stop length =>
    cases b with
    | sliceEndOutOfBounds other size =>
      obtain ⟨rfl, rfl⟩ := bounds_inj same
      rfl
    | _ => simp [opening] at cause
  | sliceReversed start stop =>
    cases b with
    | sliceReversed low high =>
      obtain ⟨starts, stops⟩ := fields_inj same (Decimal.comma_notMem_int64 low) (by decide)
        (List.not_mem_append (by decide) (Decimal.comma_notMem_int64 high))
      rw [Decimal.toString_int64_inj.mp starts, Decimal.toString_int64_inj.mp stops]
    | _ => simp [opening] at cause
  | negativeLength length =>
    cases b with
    | negativeLength other => rw [Decimal.toString_int64_inj.mp same]
    | _ => simp [opening] at cause
  | unexpectedEof =>
    cases b with
    | unexpectedEof => rfl
    | _ => simp [opening] at cause
  | unknownTag letter =>
    cases b with
    | unknownTag other => rw [Escape.ofChar_alone_inj (String.ofList_inj.mp same)]
    | _ => simp [opening] at cause
  | tagMismatch expected found =>
    cases b with
    | tagMismatch wanted got =>
      obtain ⟨firsts, lasts⟩ := fields_inj same wanted.comma_notMem_name (by decide)
        (List.not_mem_append (by decide) got.comma_notMem_name)
      rw [TypeTag.name_inj firsts, TypeTag.name_inj lasts]
    | _ => simp [opening] at cause
  | staleHandle kind =>
    cases b with
    | staleHandle other => rw [ObjectKind.name_inj (String.append_left_inj _ |>.mp same)]
    | _ => simp [opening] at cause
  | io reason =>
    cases b with
    | io other => exact congrArg io same
    | _ => simp [opening] at cause

theorem message_injective : Function.Injective message := by
  intro a b same
  rw [message_eq, message_eq] at same
  have chars := congrArg String.toList same
  simp only [String.toList_append] at chars
  have left : a.opening.toList <+: a.opening.toList ++ a.details.toList := List.prefix_append _ _
  have right : b.opening.toList <+: a.opening.toList ++ a.details.toList :=
    chars ▸ List.prefix_append _ _
  have cause : a.opening = b.opening := by
    rcases List.prefix_or_prefix_of_prefix left right with shorter | longer
    · exact openings_apart _ a.opening_mem _ b.opening_mem shorter
    · exact (openings_apart _ b.opening_mem _ a.opening_mem longer).symm
  rw [cause] at chars
  exact eq_of_opening cause (String.toList_inj.mp (List.append_cancel_left chars))

theorem isPrintable_opening (e : RuntimeError) : IsPrintableText e.opening := by
  have all : ∀ s ∈ openings, IsPrintableText s := by decide +kernel
  exact all _ e.opening_mem

theorem isPrintable_details {e : RuntimeError} (inside : ∀ reason, e ≠ .io reason) :
    IsPrintableText e.details := by
  cases e with
  | capacityExhausted kind => exact kind.isPrintable_name
  | initOverflow length => exact Decimal.isPrintable_nat length
  | initIncomplete length pending =>
    apply (Decimal.isPrintable_nat length).append
    exact .append (by decide) (Decimal.isPrintable_nat pending)
  | indexOutOfBounds index length | sliceStartOutOfBounds index length
  | sliceEndOutOfBounds index length =>
    apply (Decimal.isPrintable_int64 index).append
    exact .append (by decide) (Decimal.isPrintable_nat length)
  | sliceReversed start stop =>
    apply (Decimal.isPrintable_int64 start).append
    exact .append (by decide) (Decimal.isPrintable_int64 stop)
  | negativeLength length => exact Decimal.isPrintable_int64 length
  | unexpectedEof => decide
  | unknownTag letter =>
    intro c member
    have escaped : c ∈ (String.ofList (Escape.ofChar Escape.alone letter)).toList := member
    rw [String.toList_ofList] at escaped
    exact Escape.isPrintable_of_mem_alone escaped
  | tagMismatch expected found =>
    apply expected.isPrintable_name.append
    exact .append (by decide) found.isPrintable_name
  | staleHandle kind => exact kind.isPrintable_name.append (by decide)
  | io reason => exact absurd rfl (inside reason)

theorem isPrintable_diagnostic {e : RuntimeError} (inside : ∀ reason, e ≠ .io reason) :
    IsPrintableText e.diagnostic := by
  have front : IsPrintableText "RUNTIME ERROR: " := by decide
  have split : e.diagnostic = "RUNTIME ERROR: " ++ (e.opening ++ e.details) :=
    congrArg ("RUNTIME ERROR: " ++ ·) e.message_eq
  rw [split]
  exact front.append (e.isPrintable_opening.append (isPrintable_details inside))

/-- Errors that differ have messages and diagnostics that differ, and the diagnostic of every error but
a failure of the console is one line of printable ASCII. -/
theorem diagnostic_identifies_error :
    Function.Injective diagnostic ∧ Function.Injective message ∧
      ∀ e : RuntimeError, (∀ reason, e ≠ .io reason) →
        ∀ c ∈ e.diagnostic.toList, 0x20 ≤ c.toNat ∧ c.toNat ≤ 0x7E := by
  refine ⟨?_, message_injective, fun e inside => isPrintable_diagnostic inside⟩
  intro a b same
  exact message_injective (String.append_right_inj _ |>.mp same)

/-- The escape of a line feed shows as two characters. -/
theorem diagnostic_identifies_error_once :
    (unknownTag '\n').diagnostic = "RUNTIME ERROR: Unknown type: \\n" ∧
      (unknownTag '\n').diagnostic ≠ (unknownTag '\\').diagnostic ∧
      ∀ c ∈ (unknownTag '\n').diagnostic.toList, 0x20 ≤ c.toNat ∧ c.toNat ≤ 0x7E := by
  obtain ⟨apart, _, printable⟩ := diagnostic_identifies_error
  refine ⟨by decide, ?_, printable _ ?_⟩
  · intro same
    have letters := apart same
    exact absurd letters (by decide)
  · rintro reason ⟨⟩

end RuntimeError
end ScriptHost
