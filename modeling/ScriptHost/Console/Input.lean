import ScriptHost.Error
import ScriptHost.Text.Blank
import ScriptHost.Text.Utf8

/-! Console input as the sequence of what a reader meets when it looks for the next byte: chunks
of data, interruptions, reports of the end of input, and faults. A look that is interrupted is
repeated; any other look but one at data uses its event up. When no event is left, every look
finds the end of input. -/
namespace ScriptHost

open Utf8 (Bytes)

inductive InputEvent where
  | data (bytes : Bytes)
  | interrupted
  /-- The end of input, reported once; later looks go on behind it. -/
  | endOfInput
  /-- One look fails, for the given reason. -/
  | fault (reason : String)
  deriving DecidableEq, Repr

def InputEvent.bytes : InputEvent → Bytes
  | .data bytes => bytes
  | _ => []

abbrev Input := List InputEvent

namespace Input

def lineFeed : UInt8 := 0x0A

def unread (input : Input) : Bytes := input.flatMap InputEvent.bytes

/-- Consumes separators up to the first other byte. -/
def skipSeparators : Input → Outcome Unit × Input
  | [] => (.error .unexpectedEof, [])
  | .data bytes :: rest =>
    match bytes.dropWhile isSeparator with
    | [] => skipSeparators rest
    | b :: behind => (.ok (), .data (b :: behind) :: rest)
  | .interrupted :: rest => skipSeparators rest
  | .endOfInput :: rest => (.error .unexpectedEof, rest)
  | .fault reason :: rest => (.error (.io reason), rest)

/-- Consumes bytes up to a separator, which stays, or up to the end of input. -/
def takeToken : Input → Outcome Bytes × Input
  | [] => (.ok [], [])
  | .data bytes :: rest =>
    let token := bytes.takeWhile (!isSeparator ·)
    match bytes.dropWhile (!isSeparator ·) with
    | [] =>
      let (result, rest) := takeToken rest
      (result.map (token ++ ·), rest)
    | b :: behind => (.ok token, .data (b :: behind) :: rest)
  | .interrupted :: rest => takeToken rest
  | .endOfInput :: rest => (.ok [], rest)
  | .fault reason :: rest => (.error (.io reason), rest)

def readToken (input : Input) : Outcome Bytes × Input :=
  match skipSeparators input with
  | (.error e, rest) => (.error e, rest)
  | (.ok (), rest) => takeToken rest

/-- Consumes bytes up to and including the next line feed. -/
def discardLine : Input → Outcome Unit × Input
  | [] => (.error .unexpectedEof, [])
  | .data bytes :: rest =>
    match bytes.dropWhile (· != lineFeed) with
    | [] => discardLine rest
    | _ :: behind => (.ok (), .data behind :: rest)
  | .interrupted :: rest => discardLine rest
  | .endOfInput :: rest => (.error .unexpectedEof, rest)
  | .fault reason :: rest => (.error (.io reason), rest)

@[simp] theorem unread_nil : unread [] = [] := rfl

@[simp] theorem unread_data (bytes : Bytes) (rest : Input) :
    unread (.data bytes :: rest) = bytes ++ unread rest := rfl

@[simp] theorem unread_interrupted (rest : Input) :
    unread (.interrupted :: rest) = unread rest := rfl

@[simp] theorem unread_endOfInput (rest : Input) :
    unread (.endOfInput :: rest) = unread rest := rfl

@[simp] theorem unread_fault (reason : String) (rest : Input) :
    unread (.fault reason :: rest) = unread rest := rfl

theorem length_dropWhile_le {α : Type} (p : α → Bool) (l : List α) :
    (l.dropWhile p).length ≤ l.length := (List.dropWhile_sublist p).length_le

theorem unread_skipSeparators_le (input : Input) :
    (skipSeparators input).2.unread.length ≤ input.unread.length := by
  fun_induction skipSeparators input with
  | case1 => simp
  | case2 bytes rest h ih => simp; omega
  | case3 bytes rest b behind h =>
    have := length_dropWhile_le isSeparator bytes
    rw [h] at this
    simp at this ⊢
    omega
  | case4 rest ih => simpa using ih
  | case5 rest => simp
  | case6 reason rest => simp

theorem unread_takeToken_le (input : Input) :
    (takeToken input).2.unread.length ≤ input.unread.length := by
  fun_induction takeToken input with
  | case1 => simp
  | case2 bytes rest token h result rest' hr ih => rw [hr] at ih; simp at ih ⊢; omega
  | case3 bytes rest token b behind h =>
    have := length_dropWhile_le (!isSeparator ·) bytes
    rw [h] at this
    simp at this ⊢
    omega
  | case4 rest ih => simpa using ih
  | case5 rest => simp
  | case6 reason rest => simp

theorem unread_readToken_le (input : Input) :
    (readToken input).2.unread.length ≤ input.unread.length := by
  have skipped := unread_skipSeparators_le input
  unfold readToken
  split
  · next h => rw [h] at skipped; exact skipped
  · next h => rw [h] at skipped; exact Nat.le_trans (unread_takeToken_le _) skipped

theorem unread_discardLine_lt {input rest : Input} (h : discardLine input = (.ok (), rest)) :
    rest.unread.length < input.unread.length := by
  fun_induction discardLine input with
  | case1 => simp at h
  | case2 bytes behind hd ih => have := ih h; simp; omega
  | case3 bytes others b behind hd =>
    have := length_dropWhile_le (· != lineFeed) bytes
    rw [hd] at this
    cases h
    simp at this ⊢
    omega
  | case4 others ih => simpa using ih h
  | case5 others => simp at h
  | case6 reason others => simp at h

/-- A token and the line behind it use up input. -/
theorem unread_after_line_lt {input behind next : Input} {token : Bytes}
    (read : readToken input = (.ok token, behind)) (discarded : discardLine behind = (.ok (), next)) :
    next.unread.length < input.unread.length := by
  have consumed := unread_readToken_le input
  rw [read] at consumed
  exact Nat.lt_of_lt_of_le (unread_discardLine_lt discarded) consumed

end Input
end ScriptHost
