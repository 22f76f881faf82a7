import ScriptHost.Binary64.Numeral
import ScriptHost.Heap.Strings

/-! Tokens read as values of a wanted type. -/
namespace ScriptHost

open Utf8 (Bytes)

/-- Reads a token as a numeral of some kind; a token that is not text is none. -/
def numeral? {α : Type} (read : List Char → Option α) (token : Bytes) : Option α :=
  (Utf8.decode? token).bind read

/-- The value of a token; `none` stands for a token that does not fit the type. Only a string
touches the heap. -/
def parseToken (heap : Heap) (tag : TypeTag) (token : Bytes) : Outcome (Option Value) × Heap :=
  match tag with
  | .int => (.ok ((numeral? Decimal.int64? token).map .int), heap)
  | .float => (.ok ((numeral? Binary64.parse? token).map .float), heap)
  | .bool => (.ok ((numeral? Decimal.int64? token).map fun n => .bool (n != 0)), heap)
  | .string =>
    let (result, heap) := heap.createString token
    (result.map fun h => some (.string h), heap)
  | .char | .none | .list => (.error (.unknownTag tag.letter), heap)

end ScriptHost
