/-! Type tags: the letters by which a program names the type of a value. -/
namespace ScriptHost

inductive TypeTag where
  | int
  | float
  | string
  | bool
  | char
  | none
  | list
  deriving DecidableEq, Repr

namespace TypeTag

def letter : TypeTag → Char
  | .int => 'i'
  | .float => 'f'
  | .string => 's'
  | .bool => 'b'
  | .char => 'c'
  | .none => 'n'
  | .list => 'l'

def name : TypeTag → String
  | .int => "int"
  | .float => "float"
  | .string => "string"
  | .bool => "bool"
  | .char => "char"
  | .none => "none"
  | .list => "list"

def ofLetter? : Char → Option TypeTag
  | 'i' => some .int
  | 'f' => some .float
  | 's' => some .string
  | 'b' => some .bool
  | 'c' => some .char
  | 'n' => some .none
  | 'l' => some .list
  | _ => Option.none

@[simp] theorem ofLetter?_letter (tag : TypeTag) : ofLetter? tag.letter = some tag := by
  cases tag <;> rfl

theorem letter_of_ofLetter? {c : Char} {tag : TypeTag} (h : ofLetter? c = some tag) :
    tag.letter = c := by
  unfold ofLetter? at h
  split at h <;> cases h <;> rfl

end TypeTag
end ScriptHost
