import ScriptHost.Binary64.Fixed
import ScriptHost.Console.Output
import ScriptHost.Heap.Strings

/-! Printing tagged values on one line. -/
namespace ScriptHost

open Utf8 (Bytes)

/-- The character of a code point; whatever is none prints as U+FFFD. -/
def charOfCodePoint (n : Int64) : Char :=
  if 0 ≤ n.toInt ∧ n.toInt.toNat.isValidChar then Char.ofNat n.toInt.toNat else Utf8.replacement

/-- The text of one value under a tag. The tag `c` prints an integer as a character. -/
def itemText (heap : Heap) (tag : TypeTag) (value : Value) : Outcome Bytes :=
  match tag with
  | .int => do return Utf8.ofString (toString (← value.asInt))
  | .float => do return Utf8.ofString (← value.asFloat).format
  | .char => do return Utf8.encodeChar (charOfCodePoint (← value.asInt))
  | .bool => do return Utf8.ofString (if ← value.asBool then "true" else "false")
  | .string => do heap.stringBytes (← value.asString)
  | .none | .list => .error (.unknownTag tag.letter)

/-- Adds the text of one value to a line; a failure leaves the line as it is. -/
def writeItem (heap : Heap) (line : Bytes) (tag : TypeTag) (value : Value) :
    Outcome Unit × Bytes :=
  match itemText heap tag value with
  | .error e => (.error e, line)
  | .ok text => (.ok (), line ++ text)

/-- Adds items to a line, a space behind each of them, up to the first failure. -/
def writeItems (heap : Heap) (line : Bytes) : List (TypeTag × Value) → Outcome Unit × Bytes
  | [] => (.ok (), line)
  | (tag, value) :: rest =>
    match writeItem heap line tag value with
    | (.error e, line) => (.error e, line)
    | (.ok (), line) => writeItems heap (line ++ [0x20]) rest

/-- Prints a line in one write, or nothing if an item has no text. -/
def printItems (heap : Heap) (out : Output) (items : List (TypeTag × Value)) :
    Outcome Unit × Output :=
  match writeItems heap [] items with
  | (.error e, _) => (.error e, out)
  | (.ok (), line) => out.writeAndFlush [line ++ [0x0A]]

/-- What a raw value prints: a character goes through its code point. -/
def RawValue.toItem (raw : RawValue) : Outcome (TypeTag × Value) :=
  match raw.typeTag with
  | .error e => .error e
  | .ok .char => .ok (.char, .int raw.bits.toInt64)
  | .ok tag => do return (tag, ← raw.decode)

/-! A printed line, text by text. -/

/-- The text of each item followed by a space, then a line feed. -/
def lineText (heap : Heap) : List (TypeTag × Value) → Outcome Bytes
  | [] => .ok [0x0A]
  | (tag, value) :: rest => do
    let text ← itemText heap tag value
    let others ← lineText heap rest
    return text ++ 0x20 :: others

variable {heap : Heap} {items : List (TypeTag × Value)}

theorem writeItems_of_error {e : RuntimeError} (failed : lineText heap items = .error e) (line : Bytes) :
    (writeItems heap line items).1 = .error e := by
  induction items generalizing line with
  | nil => cases failed
  | cons item rest ih =>
    obtain ⟨tag, value⟩ := item
    cases made : itemText heap tag value with
    | error cause =>
      rw [lineText, made] at failed
      cases failed
      rw [writeItems, writeItem, made]
    | ok text =>
      cases others : lineText heap rest with
      | error cause =>
        rw [lineText, made, others] at failed
        cases failed
        rw [writeItems, writeItem, made]
        exact ih others _
      | ok behind =>
        rw [lineText, made, others] at failed
        cases failed

theorem writeItems_of_text {text : Bytes} (made : lineText heap items = .ok text) (line : Bytes) :
    ∃ body, writeItems heap line items = (.ok (), line ++ body) ∧ body ++ [0x0A] = text := by
  induction items generalizing line text with
  | nil =>
    cases made
    exact ⟨[], by rw [writeItems, List.append_nil], rfl⟩
  | cons item rest ih =>
    obtain ⟨tag, value⟩ := item
    cases first : itemText heap tag value with
    | error cause =>
      rw [lineText, first] at made
      cases made
    | ok own =>
      cases others : lineText heap rest with
      | error cause =>
        rw [lineText, first, others] at made
        cases made
      | ok behind =>
        rw [lineText, first, others] at made
        cases made
        obtain ⟨body, written, rfl⟩ := ih others (line ++ own ++ [0x20])
        have parts : line ++ own ++ [0x20] ++ body = line ++ (own ++ 0x20 :: body) := by simp
        refine ⟨own ++ 0x20 :: body, ?_, by simp⟩
        rw [writeItems, writeItem, first, ← parts]
        exact written

/-- Writing the items one behind the other makes the line of their texts. -/
theorem printItems_eq (heap : Heap) (out : Output) (items : List (TypeTag × Value)) :
    printItems heap out items =
      match lineText heap items with
      | .error e => (.error e, out)
      | .ok line => out.writeAndFlush [line] := by
  cases made : lineText heap items with
  | error e =>
    have failed := writeItems_of_error made []
    simp only [printItems]
    split
    · next cause _ written =>
      rw [written] at failed
      cases failed
      rfl
    · next written =>
      rw [written] at failed
      cases failed
  | ok line =>
    obtain ⟨body, written, rfl⟩ := writeItems_of_text made []
    simp only [printItems, written, List.nil_append]

end ScriptHost
