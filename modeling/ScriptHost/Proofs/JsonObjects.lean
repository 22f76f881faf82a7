import ScriptHost.Proofs.DecimalPlaces
import ScriptHost.Text.Json

/-! JSON objects whose members are counts or null. Such an object is read from its text, with blanks around
every part of it; the compact text of an object, which has no blanks, is read as that object. -/
namespace ScriptHost

theorem Decimal.notMem_toString_nat {c : Char} (other : c.isDigit = false) (n : ℕ) :
    c ∉ (toString n).toList := by
  intro member
  have digits : c ∈ Nat.toDigits 10 n := Nat.toList_repr ▸ member
  rw [List.all_eq_true.mp (all_isDigit_toDigits n) c digits] at other
  cases other

namespace Json

def isBlank (c : Char) : Bool := c ∈ [' ', '\t', '\n', '\r']

/-- What is behind the character that has to come next. -/
def behind? (c : Char) (text : List Char) : Option (List Char) :=
  match text.dropWhile isBlank with
  | [] => none
  | d :: rest => if d = c then some rest else none

/-- A name in quotes, without escapes. -/
def name? (text : List Char) : Option (String × List Char) := do
  let opened ← behind? '"' text
  match opened.span isPlain with
  | (name, '"' :: rest) => some (String.ofList name, rest)
  | _ => none

/-- No zero leads a number of more than one digit. -/
def number? (text : List Char) : Option (ℕ × List Char) :=
  match text.span Char.isDigit with
  | ('0' :: _ :: _, _) => none
  | (digits, rest) => (Decimal.natural? digits).map fun n => (n, rest)

def value? (text : List Char) : Option (Option ℕ × List Char) :=
  match text.dropWhile isBlank with
  | 'n' :: 'u' :: 'l' :: 'l' :: rest => some (none, rest)
  | text => (number? text).map fun (n, rest) => (some n, rest)

def member? (text : List Char) : Option (Member × List Char) := do
  let (name, rest) ← name? text
  let rest ← behind? ':' rest
  let (value, rest) ← value? rest
  return ((name, value), rest)

/-- At most so many members, with commas between them, up to the end of the object. -/
def members? : ℕ → List Char → Option (List Member × List Char)
  | 0, _ => none
  | limit + 1, text => do
    let (member, rest) ← member? text
    match behind? ',' rest with
    | some rest =>
      let (members, rest) ← members? limit rest
      return (member :: members, rest)
    | none =>
      let rest ← behind? '\x7d' rest
      return ([member], rest)

/-- The members of the object that a text holds, in their order. Every member takes a character of the text,
so that the length of the text bounds their number. -/
def object? (text : String) : Option (List Member) := do
  let opened ← behind? '\x7b' text.toList
  let (members, rest) ← match behind? '\x7d' opened with
    | some rest => some ([], rest)
    | none => members? opened.length opened
  if rest.all isBlank then some members else none

/-- The members with commas between them. -/
def joined (members : List Member) : List Char :=
  [','].intercalate (members.map fun member => (memberText member).toList)

variable {c : Char} {rest : List Char}

theorem behind?_cons (visible : isBlank c = false) (rest : List Char) : behind? c (c :: rest) = some rest := by
  rw [behind?, List.dropWhile_cons_of_neg (Bool.eq_false_iff.mp visible)]
  exact if_pos rfl

theorem behind?_cons_of_ne {d : Char} (visible : isBlank c = false) (other : c ≠ d) (rest : List Char) :
    behind? d (c :: rest) = none := by
  rw [behind?, List.dropWhile_cons_of_neg (Bool.eq_false_iff.mp visible)]
  exact if_neg other

theorem name?_quoted {name : String} (plain : IsPlainName name) (rest : List Char) :
    name? ('"' :: (name.toList ++ '"' :: rest)) = some (name, rest) := by
  have quote : ∀ c ∈ ('"' :: rest).head?, isPlain c = false := by
    rintro c ⟨⟩
    rfl
  have split : (name.toList ++ '"' :: rest).span isPlain = (name.toList, '"' :: rest) :=
    span_append_of_stop plain quote
  simp only [name?, behind?_cons (c := '"') (by decide), Option.bind_eq_bind, Option.bind_some, split,
    String.ofList_toList]

/-- The end of a value: no digit follows. -/
def Ends (rest : List Char) : Prop := ∀ c ∈ rest.head?, c.isDigit = false

theorem number?_toDigits (n : ℕ) (ends : Ends rest) :
    number? (Nat.toDigits 10 n ++ rest) = some (n, rest) := by
  have digits : ∀ c ∈ Nat.toDigits 10 n, c.isDigit = true :=
    List.all_eq_true.mp (Decimal.all_isDigit_toDigits n)
  rw [number?, span_digits digits ends]
  split
  · next same =>
    have padded := (Prod.mk.inj same).1
    have zero : n = 0 := head?_toDigits (by rw [padded]; rfl)
    rw [zero] at padded
    cases padded
  · next same =>
    obtain ⟨rfl, rfl⟩ := Prod.mk.inj same
    rw [Decimal.natural?_toDigits]
    rfl

theorem isBlank_of_isDigit (digit : c.isDigit = true) : isBlank c = false := by
  rw [Bool.eq_false_iff]
  intro blank
  have member : c ∈ [' ', '\t', '\n', '\r'] := of_decide_eq_true blank
  simp only [List.mem_cons, List.not_mem_nil, or_false] at member
  rcases member with rfl | rfl | rfl | rfl
  all_goals cases digit

theorem value?_valueText (value : Option ℕ) (ends : Ends rest) :
    value? ((valueText value).toList ++ rest) = some (value, rest) := by
  cases value with
  | none => rfl
  | some n =>
    obtain ⟨c, digits, split⟩ := List.exists_cons_of_ne_nil (Nat.toDigits_ne_nil (n := n) (b := 10))
    have digit : c.isDigit = true :=
      List.all_eq_true.mp (Decimal.all_isDigit_toDigits n) c (split ▸ List.mem_cons_self)
    have text : (valueText (some n)).toList = Nat.toDigits 10 n := Nat.toList_repr
    have visible : ¬ isBlank c = true := Bool.eq_false_iff.mp (isBlank_of_isDigit digit)
    rw [text, value?, split, List.cons_append, List.dropWhile_cons_of_neg visible]
    split
    · next same =>
      rw [(List.cons.inj same).1] at digit
      cases digit
    · rw [← List.cons_append, ← split, number?_toDigits n ends]
      rfl

theorem toList_memberText (member : Member) (rest : List Char) :
    (memberText member).toList ++ rest =
      '"' :: (member.1.toList ++ '"' :: (':' :: ((valueText member.2).toList ++ rest))) := by
  simp [memberText]

theorem member?_memberText {member : Member} (plain : IsPlainName member.1) (ends : Ends rest) :
    member? ((memberText member).toList ++ rest) = some (member, rest) := by
  rw [toList_memberText, member?, name?_quoted plain]
  simp only [Option.bind_eq_bind, Option.bind_some, behind?_cons (c := ':') (by decide),
    value?_valueText member.2 ends, Option.pure_def]

theorem ends_comma (rest : List Char) : Ends (',' :: rest) := by
  rintro c ⟨⟩
  rfl

theorem ends_brace (rest : List Char) : Ends ('\x7d' :: rest) := by
  rintro c ⟨⟩
  rfl

theorem toList_compact (members : List Member) :
    (compact members).toList = '\x7b' :: (joined members ++ ['\x7d']) := by
  simp [compact, joined, String.toList_intercalate, Function.comp_def]

theorem joined_singleton (member : Member) (rest : List Char) :
    joined [member] ++ rest = (memberText member).toList ++ rest := by
  rw [joined, List.map_singleton, List.intercalate_singleton]

theorem joined_cons_cons (member next : Member) (members : List Member) (rest : List Char) :
    joined (member :: next :: members) ++ rest =
      (memberText member).toList ++ ',' :: (joined (next :: members) ++ rest) := by
  rw [joined, List.map_cons, List.map_cons, List.intercalate_cons_cons, List.append_assoc,
    List.append_assoc, List.singleton_append]
  rfl

theorem exists_joined_cons (member : Member) (members : List Member) (rest : List Char) :
    ∃ behind, joined (member :: members) ++ rest = '"' :: behind := by
  cases members with
  | nil => exact ⟨_, (joined_singleton member rest).trans (toList_memberText member rest)⟩
  | cons next members =>
    exact ⟨_, (joined_cons_cons member next members rest).trans (toList_memberText member _)⟩

theorem length_le_joined (members : List Member) (rest : List Char) :
    members.length ≤ (joined members ++ rest).length := by
  induction members with
  | nil => exact Nat.zero_le _
  | cons member members ih =>
    cases members with
    | nil =>
      obtain ⟨behind, split⟩ := exists_joined_cons member [] rest
      rw [split]
      exact Nat.succ_le_succ (Nat.zero_le _)
    | cons next members =>
      rw [joined_cons_cons, List.length_append]
      exact Nat.le_trans (Nat.succ_le_succ ih) (Nat.le_add_left _ _)

/-- Members are read up to the brace behind them. -/
theorem members?_joined {members : List Member} {limit : ℕ} (some : members ≠ [])
    (enough : members.length ≤ limit) (plain : ∀ member ∈ members, IsPlainName member.1)
    (rest : List Char) :
    members? limit (joined members ++ '\x7d' :: rest) = .some (members, rest) := by
  induction members generalizing limit with
  | nil => exact absurd rfl some
  | cons member members ih =>
    obtain ⟨limit, rfl⟩ := Nat.exists_eq_add_of_le' (Nat.le_of_add_left_le enough)
    obtain ⟨first, others⟩ := List.forall_mem_cons.mp plain
    cases members with
    | nil =>
      rw [joined_singleton, members?, member?_memberText first (ends_brace rest)]
      simp only [Option.bind_eq_bind, Option.bind_some,
        behind?_cons_of_ne (c := '\x7d') (d := ',') (by decide) (by decide),
        behind?_cons (c := '\x7d') (by decide), Option.pure_def]
    | cons next members =>
      have later := ih (List.cons_ne_nil _ _) (Nat.le_of_succ_le_succ enough) others
      rw [joined_cons_cons, members?, member?_memberText first (ends_comma _)]
      simp only [Option.bind_eq_bind, Option.bind_some, behind?_cons (c := ',') (by decide), later,
        Option.pure_def]

/-- The compact text of an object, with blanks behind it or without, is read as that object. -/
theorem object?_compact {members : List Member} (plain : ∀ member ∈ members, IsPlainName member.1)
    {behind : String} (blank : behind.toList.all isBlank = true) :
    object? (compact members ++ behind) = some members := by
  rw [object?, String.toList_append, toList_compact, List.cons_append, List.append_assoc,
    List.singleton_append, behind?_cons (c := '\x7b') (by decide)]
  cases members with
  | nil =>
    have closed : behind? '\x7d' (joined [] ++ '\x7d' :: behind.toList) = some behind.toList :=
      behind?_cons (by decide) _
    simp only [Option.bind_eq_bind, Option.bind_some, closed, blank, if_pos]
  | cons member members =>
    obtain ⟨inside, split⟩ := exists_joined_cons member members ('\x7d' :: behind.toList)
    have opened : behind? '\x7d' (joined (member :: members) ++ '\x7d' :: behind.toList) = none := by
      rw [split]
      exact behind?_cons_of_ne (by decide) (by decide) _
    have read := members?_joined (List.cons_ne_nil member members)
      (length_le_joined _ ('\x7d' :: behind.toList)) plain behind.toList
    simp only [Option.bind_eq_bind, Option.bind_some, opened, read, blank, if_pos]

/-- Blanks do not count, and a zero that leads a number is refused. -/
example : object? "\x7b \"a\" : 10 ,\"b\":null\n\x7d " = some [("a", some 10), ("b", none)] ∧
    object? "\x7b\"a\":010\x7d" = none := by
  decide +kernel

/-! The compact text stands on one line. -/

theorem newline_notMem_valueText (value : Option ℕ) : '\n' ∉ (valueText value).toList := by
  cases value with
  | none => decide
  | some n => exact Decimal.notMem_toString_nat rfl n

theorem newline_notMem_memberText {member : Member} (plain : IsPlainName member.1) :
    '\n' ∉ (memberText member).toList := by
  have name : '\n' ∉ member.1.toList := by
    intro inside
    have visible := plain _ inside
    cases visible
  rw [← List.append_nil (memberText member).toList, toList_memberText, List.append_nil]
  simp [name, newline_notMem_valueText]

theorem newline_notMem_joined {members : List Member} (plain : ∀ member ∈ members, IsPlainName member.1)
    {rest : List Char} (line : '\n' ∉ rest) : '\n' ∉ joined members ++ rest := by
  induction members with
  | nil => exact line
  | cons member members ih =>
    obtain ⟨first, others⟩ := List.forall_mem_cons.mp plain
    cases members with
    | nil =>
      rw [joined_singleton]
      exact List.not_mem_append (newline_notMem_memberText first) line
    | cons next members =>
      rw [joined_cons_cons]
      exact List.not_mem_append (newline_notMem_memberText first)
        (List.not_mem_cons_of_ne_of_not_mem (by decide) (ih others))

theorem newline_notMem_compact {members : List Member} (plain : ∀ member ∈ members, IsPlainName member.1) :
    '\n' ∉ (compact members).toList := by
  rw [toList_compact]
  exact List.not_mem_cons_of_ne_of_not_mem (by decide) (newline_notMem_joined plain (by decide))

end Json
end ScriptHost
