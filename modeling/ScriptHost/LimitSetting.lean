import ScriptHost.Text.Blank
import ScriptHost.Text.Decimal
import ScriptHost.Text.Utf8

/-! The limit on live objects, as a setting that a user writes. -/
namespace ScriptHost

open Utf8 (Bytes)

inductive LimitSetting where
  | unset
  /-- Zero, in any spelling: no limit. -/
  | unbounded
  | limited (count : Nat)
  /-- Not a number that a limit can have. -/
  | rejected (raw : String)
  deriving DecidableEq, Repr

namespace LimitSetting

/-- White space around the number does not count. -/
def parse (raw : String) : LimitSetting :=
  match Decimal.nat64? (trim raw.toList) with
  | none => .rejected raw
  | some 0 => .unbounded
  | some count => .limited count

def ofText? : Option String → LimitSetting
  | none => .unset
  | some raw => parse raw

/-- A variable that is not text counts as unset. -/
def ofBytes? (raw : Option Bytes) : LimitSetting :=
  ofText? ((raw.bind Utf8.decode?).map String.ofList)

def maxObjects : LimitSetting → Option Nat
  | .limited count => some count
  | _ => none

end LimitSetting
end ScriptHost
