import ScriptHost.Binary64.Basic
import ScriptHost.Error

/-! The values of a program, and their encoding as a tag byte with a 64-bit word. -/
namespace ScriptHost

inductive Value where
  | int (n : Int64)
  | float (x : Binary64)
  | bool (b : Bool)
  | none
  | string (h : StringHandle)
  | list (h : ListHandle)
  deriving DecidableEq, Repr, Inhabited

namespace Value

def tag : Value → TypeTag
  | .int _ => .int
  | .float _ => .float
  | .bool _ => .bool
  | .none => .none
  | .string _ => .string
  | .list _ => .list

/-- The error of reading a value as a type that it does not have. -/
def mismatch (expected : TypeTag) (v : Value) : RuntimeError := .tagMismatch expected v.tag

def asInt : Value → Outcome Int64
  | .int n => .ok n
  | v => .error (v.mismatch .int)

def asFloat : Value → Outcome Binary64
  | .float x => .ok x
  | v => .error (v.mismatch .float)

def asBool : Value → Outcome Bool
  | .bool b => .ok b
  | v => .error (v.mismatch .bool)

def asString : Value → Outcome StringHandle
  | .string h => .ok h
  | v => .error (v.mismatch .string)

def asList : Value → Outcome ListHandle
  | .list h => .ok h
  | v => .error (v.mismatch .list)

def isNone : Value → Bool
  | .none => true
  | _ => false

def equal : Value → Value → Bool
  | .int a, .int b => a == b
  | .float x, .float y => x.numEq y
  | .bool a, .bool b => a == b
  | .none, .none => true
  | .string a, .string b => a == b
  | .list a, .list b => a == b
  | _, _ => false

end Value

/-- A value as a program passes it: the letter of its type and one word. -/
structure RawValue where
  tag : UInt8
  bits : UInt64
  deriving DecidableEq, Repr

namespace RawValue

def ofTag (tag : TypeTag) (bits : UInt64) : RawValue := ⟨UInt8.ofNat tag.letter.toNat, bits⟩

/-- A character to print, carried as its code point. -/
def ofChar (c : Char) : RawValue := ofTag .char (UInt64.ofNat c.toNat)

def typeTag (raw : RawValue) : Outcome TypeTag := TypeTag.ofByte raw.tag

/-- A character is no value; once stored it is an integer. -/
def decode (raw : RawValue) : Outcome Value :=
  match raw.typeTag with
  | .error e => .error e
  | .ok .int => .ok (.int raw.bits.toInt64)
  | .ok .float => .ok (.float ⟨raw.bits⟩)
  | .ok .bool => .ok (.bool (raw.bits != 0))
  | .ok .none => .ok .none
  | .ok .string => .ok (.string (Handle.ofBits raw.bits))
  | .ok .list => .ok (.list (Handle.ofBits raw.bits))
  | .ok .char => .error (.tagMismatch .int .char)

end RawValue

def Value.encode : Value → RawValue
  | .int n => .ofTag .int n.toUInt64
  | .float x => .ofTag .float x.bits
  | .bool b => .ofTag .bool (if b then 1 else 0)
  | .none => .ofTag .none 0
  | .string h => .ofTag .string h.toBits
  | .list h => .ofTag .list h.toBits

end ScriptHost
