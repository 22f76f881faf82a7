/-! The text of JSON objects whose members are counts or null. -/
namespace ScriptHost.Json

/-- A name and its value; null is `none`. -/
abbrev Member := String × Option Nat

/-- The characters that stand for themselves between quotes. -/
def isPlain (c : Char) : Bool := 0x20 ≤ c.toNat && c ≠ '"' && c ≠ '\\'

/-- The name needs no escapes. -/
def IsPlainName (name : String) : Prop := ∀ c ∈ name.toList, isPlain c = true

instance (name : String) : Decidable (IsPlainName name) := List.decidableBAll _ _

def valueText : Option Nat → String
  | some n => toString n
  | none => "null"

def memberText (member : Member) : String := "\"" ++ member.1 ++ "\":" ++ valueText member.2

/-- The text of an object without any blanks. -/
def compact (members : List Member) : String :=
  "\x7b" ++ ",".intercalate (members.map memberText) ++ "\x7d"

/-- Writes objects whose names need no escapes compactly: their members in order, the counts in decimal. -/
def WritesCompactly (write : List Member → Option String) : Prop :=
  ∀ members, (∀ member ∈ members, IsPlainName member.1) → write members = some (compact members)

end ScriptHost.Json
