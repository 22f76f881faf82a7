import ScriptHost.Handle
import ScriptHost.Tag
import ScriptHost.Text.Escape

/-! What can go wrong in a program, by cause, and the wording of each cause. -/
namespace ScriptHost

inductive RuntimeError where
  /-- The log of this kind takes no further object. -/
  | capacityExhausted (kind : ObjectKind)
  /-- An initial value for a list whose initial slots are all filled. -/
  | initOverflow (length : Nat)
  /-- Use of a list that still waits for initial values. -/
  | initIncomplete (length pending : Nat)
  | indexOutOfBounds (index : Int64) (length : Nat)
  | sliceStartOutOfBounds (start : Int64) (length : Nat)
  | sliceEndOutOfBounds (stop : Int64) (length : Nat)
  | sliceReversed (start stop : Int64)
  | negativeLength (length : Int64)
  | unexpectedEof
  /-- A letter that is no type tag, or a tag that the operation cannot serve. -/
  | unknownTag (letter : Char)
  | tagMismatch (expected found : TypeTag)
  /-- A handle from a generation that has been released, or that was never issued. -/
  | staleHandle (kind : ObjectKind)
  /-- The console failed, for the given reason. -/
  | io (reason : String)
  deriving DecidableEq, Repr

namespace RuntimeError

def message : RuntimeError → String
  | .capacityExhausted kind => s!"Out of memory for {kind.name}"
  | .initOverflow length =>
    s!"Trying to add more initial elements to full list. Length is {length}"
  | .initIncomplete length pending =>
    s!"List initialization is not complete. Length is {length}, uninitialized length is {pending}"
  | .indexOutOfBounds index length =>
    s!"Index out of bounds. Trying to access {index}, length is {length}"
  | .sliceStartOutOfBounds start length =>
    s!"Start index out of bounds. Trying to access {start}, length is {length}"
  | .sliceEndOutOfBounds stop length =>
    s!"End index out of bounds. Trying to access {stop}, length is {length}"
  | .sliceReversed start stop =>
    s!"Start index is greater than end index. start={start}, end={stop}"
  | .negativeLength length => s!"List length must be non-negative, got {length}"
  | .unexpectedEof => "Reaching unexpected EOF."
  | .unknownTag letter => "Unknown type: " ++ String.ofList (Escape.ofChar Escape.alone letter)
  | .tagMismatch expected found =>
    s!"Type tag mismatch: expected {expected.name}, found {found.name}"
  | .staleHandle kind => s!"Use of a {kind.name} that was already released"
  | .io reason => s!"I/O error: {reason}"

/-- The line that a program prints when it ends on this error. -/
def diagnostic (e : RuntimeError) : String := "RUNTIME ERROR: " ++ e.message

end RuntimeError

abbrev Outcome := Except RuntimeError

namespace TypeTag

def ofChar (c : Char) : Outcome TypeTag :=
  match ofLetter? c with
  | some tag => .ok tag
  | Option.none => .error (.unknownTag c)

/-- A byte counts as the character of the same number. -/
def ofByte (b : UInt8) : Outcome TypeTag := ofChar (Char.ofNat b.toNat)

end TypeTag
end ScriptHost
