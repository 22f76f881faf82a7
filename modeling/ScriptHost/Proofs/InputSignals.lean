import Mathlib.Data.List.TakeWhile
import ScriptHost.Console.Read

/-! Console input byte by byte. A reader sees an input as a stream of bytes, ends of input and
faults; the cuts between chunks and the interruptions leave no trace in the stream, so no program
can tell two inputs apart that differ in nothing else. -/
namespace ScriptHost

open Utf8 (Bytes)

/-- What a look at the input can find, interrupted looks left out. -/
inductive Signal where
  | byte (b : UInt8)
  | endOfInput
  | fault (reason : String)

namespace Signal

def byte? : Signal → Option UInt8
  | .byte b => some b
  | _ => none

def skipSeparators : List Signal → Outcome Unit × List Signal
  | [] => (.error .unexpectedEof, [])
  | .byte b :: rest => if isSeparator b then skipSeparators rest else (.ok (), .byte b :: rest)
  | .endOfInput :: rest => (.error .unexpectedEof, rest)
  | .fault reason :: rest => (.error (.io reason), rest)

def takeToken : List Signal → Outcome Bytes × List Signal
  | [] => (.ok [], [])
  | .byte b :: rest =>
    if isSeparator b then (.ok [], .byte b :: rest)
    else
      let (result, rest) := takeToken rest
      (result.map (b :: ·), rest)
  | .endOfInput :: rest => (.ok [], rest)
  | .fault reason :: rest => (.error (.io reason), rest)

def readToken (signals : List Signal) : Outcome Bytes × List Signal :=
  match skipSeparators signals with
  | (.error e, rest) => (.error e, rest)
  | (.ok (), rest) => takeToken rest

def discardLine : List Signal → Outcome Unit × List Signal
  | [] => (.error .unexpectedEof, [])
  | .byte b :: rest => if b = Input.lineFeed then (.ok (), rest) else discardLine rest
  | .endOfInput :: rest => (.error .unexpectedEof, rest)
  | .fault reason :: rest => (.error (.io reason), rest)

variable {bytes : Bytes} {rest : List Signal}

@[simp] theorem filterMap_byte?_bytes (bytes : Bytes) :
    (bytes.map Signal.byte).filterMap byte? = bytes := by
  rw [List.filterMap_map]
  exact List.filterMap_some

theorem skipSeparators_of_blank (blank : bytes.dropWhile isSeparator = []) (rest : List Signal) :
    skipSeparators (bytes.map .byte ++ rest) = skipSeparators rest := by
  induction bytes with
  | nil => rfl
  | cons b bytes ih =>
    rw [List.dropWhile_cons] at blank
    split at blank
    · next separator =>
      simp only [List.map_cons, List.cons_append, skipSeparators, separator, if_true]
      exact ih blank
    · cases blank

theorem skipSeparators_of_stop {b : UInt8} {behind : Bytes}
    (stop : bytes.dropWhile isSeparator = b :: behind) (rest : List Signal) :
    skipSeparators (bytes.map .byte ++ rest) = (.ok (), (b :: behind).map .byte ++ rest) := by
  induction bytes with
  | nil => cases stop
  | cons c bytes ih =>
    rw [List.dropWhile_cons] at stop
    split at stop
    · next separator =>
      simp only [List.map_cons, List.cons_append, skipSeparators, separator, if_true]
      exact ih stop
    · next other =>
      cases stop
      simp [skipSeparators, other]

theorem takeToken_of_open (unended : bytes.dropWhile (!isSeparator ·) = []) (rest : List Signal) :
    takeToken (bytes.map .byte ++ rest) =
      ((takeToken rest).1.map (bytes ++ ·), (takeToken rest).2) := by
  induction bytes with
  | nil =>
    cases result : (takeToken rest).1 <;> simp [Except.map, ← result]
  | cons b bytes ih =>
    rw [List.dropWhile_cons] at unended
    split at unended
    · next other =>
      have first : isSeparator b = false := by simpa using other
      simp only [List.map_cons, List.cons_append, takeToken, first, ih unended]
      cases (takeToken rest).1 <;> rfl
    · cases unended

theorem takeToken_of_stop {b : UInt8} {behind : Bytes}
    (stop : bytes.dropWhile (!isSeparator ·) = b :: behind) (rest : List Signal) :
    takeToken (bytes.map .byte ++ rest) =
      (.ok (bytes.takeWhile (!isSeparator ·)), (b :: behind).map .byte ++ rest) := by
  induction bytes with
  | nil => cases stop
  | cons c bytes ih =>
    rw [List.dropWhile_cons] at stop
    split at stop
    · next other =>
      have first : isSeparator c = false := by simpa using other
      simp [takeToken, first, ih stop, Except.map]
    · next separator =>
      have first : isSeparator c = true := by simpa using separator
      cases stop
      simp [takeToken, first]

theorem discardLine_of_open (unended : bytes.dropWhile (· != Input.lineFeed) = [])
    (rest : List Signal) : discardLine (bytes.map .byte ++ rest) = discardLine rest := by
  induction bytes with
  | nil => rfl
  | cons b bytes ih =>
    rw [List.dropWhile_cons] at unended
    split at unended
    · next other =>
      have first : b ≠ Input.lineFeed := by simpa using other
      simp only [List.map_cons, List.cons_append, discardLine, first, if_false]
      exact ih unended
    · cases unended

theorem discardLine_of_stop {b : UInt8} {behind : Bytes}
    (stop : bytes.dropWhile (· != Input.lineFeed) = b :: behind) (rest : List Signal) :
    discardLine (bytes.map .byte ++ rest) = (.ok (), behind.map .byte ++ rest) := by
  induction bytes with
  | nil => cases stop
  | cons c bytes ih =>
    rw [List.dropWhile_cons] at stop
    split at stop
    · next other =>
      have first : c ≠ Input.lineFeed := by simpa using other
      simp only [List.map_cons, List.cons_append, discardLine, first, if_false]
      exact ih stop
    · next feed =>
      have first : c = Input.lineFeed := by simpa using feed
      cases stop
      simp [discardLine, first]

end Signal

def InputEvent.signals : InputEvent → List Signal
  | .data bytes => bytes.map .byte
  | .interrupted => []
  | .endOfInput => [.endOfInput]
  | .fault reason => [.fault reason]

namespace Input

def signals (input : Input) : List Signal := input.flatMap InputEvent.signals

@[simp] theorem signals_nil : signals [] = [] := rfl

@[simp] theorem signals_data (bytes : Bytes) (rest : Input) :
    signals (.data bytes :: rest) = bytes.map .byte ++ signals rest := rfl

@[simp] theorem signals_interrupted (rest : Input) :
    signals (.interrupted :: rest) = signals rest := rfl

@[simp] theorem signals_endOfInput (rest : Input) :
    signals (.endOfInput :: rest) = .endOfInput :: signals rest := rfl

@[simp] theorem signals_fault (reason : String) (rest : Input) :
    signals (.fault reason :: rest) = .fault reason :: signals rest := rfl

theorem unread_eq_filterMap (input : Input) : input.unread = input.signals.filterMap Signal.byte? := by
  induction input with
  | nil => rfl
  | cons event rest ih =>
    cases event with
    | data bytes =>
      rw [unread_data, signals_data, List.filterMap_append, Signal.filterMap_byte?_bytes, ih]
    | interrupted | endOfInput | fault reason => exact ih

/-! The chunkwise readers find what reading one signal after the other finds. -/

theorem skipSeparators_signals (input : Input) :
    Signal.skipSeparators input.signals =
      ((skipSeparators input).1, (skipSeparators input).2.signals) := by
  fun_induction skipSeparators input with
  | case1 => rfl
  | case2 bytes rest blank ih =>
    rw [signals_data, Signal.skipSeparators_of_blank blank]
    exact ih
  | case3 bytes rest b behind stop =>
    rw [signals_data, Signal.skipSeparators_of_stop stop]
    rfl
  | case4 rest ih => exact ih
  | case5 rest => rfl
  | case6 reason rest => rfl

theorem takeToken_signals (input : Input) :
    Signal.takeToken input.signals = ((takeToken input).1, (takeToken input).2.signals) := by
  fun_induction takeToken input with
  | case1 => rfl
  | case2 bytes rest token unended result behind taken ih =>
    have all : token = bytes := List.takeWhile_eq_self_iff.mpr (List.dropWhile_eq_nil_iff.mp unended)
    rw [signals_data, Signal.takeToken_of_open unended, ih, taken, all]
  | case3 bytes rest token b behind stop =>
    rw [signals_data, Signal.takeToken_of_stop stop]
    rfl
  | case4 rest ih => exact ih
  | case5 rest => rfl
  | case6 reason rest => rfl

theorem readToken_signals (input : Input) :
    Signal.readToken input.signals = ((readToken input).1, (readToken input).2.signals) := by
  have skipped := skipSeparators_signals input
  unfold Signal.readToken readToken
  rw [skipped]
  cases skipSeparators input with
  | mk result rest =>
    cases result with
    | error e => rfl
    | ok done => exact takeToken_signals rest

theorem discardLine_signals (input : Input) :
    Signal.discardLine input.signals = ((discardLine input).1, (discardLine input).2.signals) := by
  fun_induction discardLine input with
  | case1 => rfl
  | case2 bytes rest unended ih =>
    rw [signals_data, Signal.discardLine_of_open unended]
    exact ih
  | case3 bytes rest b behind stop =>
    rw [signals_data, Signal.discardLine_of_stop stop]
    rfl
  | case4 rest ih => exact ih
  | case5 rest => rfl
  | case6 reason rest => rfl

end Input
end ScriptHost
