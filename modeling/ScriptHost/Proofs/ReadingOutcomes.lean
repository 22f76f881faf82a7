import Mathlib.Data.List.Infix
import ScriptHost.Proofs.TypedReading

/-! How a read of a value can end, on any input and with any output. What it has shown by then are whole
rounds and a front part of one more prompt; what it has used up of the input is a front part too; and
a prompt breaks off only where a line was just completed, so never behind a failing look at the
input. -/
namespace ScriptHost

open Utf8 (Bytes)

namespace Output

variable {out after : Output} {bytes : Bytes} {e : RuntimeError}

theorem write_error (failed : out.write bytes = (.error e, after)) :
    ∃ reason, e = .io reason ∧ out.sink.Gives reason := by
  unfold write at failed
  split at failed
  · next reason refused =>
    cases failed
    exact ⟨reason, rfl, .inl ⟨_, _, _, refused⟩⟩
  · cases failed

theorem flush_error (failed : out.flush = (.error e, after)) :
    ∃ reason, e = .io reason ∧ out.sink.Gives reason := by
  unfold flush at failed
  split at failed
  · next reason faulty =>
    cases failed
    exact ⟨reason, rfl, .inr ⟨_, _, faulty⟩⟩
  · cases failed

/-- A failing sequence of writes has written the parts in front of the one that was refused, or all of them
where the flush failed. -/
theorem writeAndFlush_error {parts : List Bytes} (failed : out.writeAndFlush parts = (.error e, after)) :
    (∃ done rest, parts = done ++ rest ∧ after.written = out.written ++ done.flatten) ∧
      ∃ reason, e = .io reason ∧ out.sink.Gives reason := by
  induction parts generalizing out with
  | nil =>
    have flushed : out.flush = (.error e, after) := failed
    have same := written_flush out
    rw [flushed] at same
    refine ⟨⟨[], [], rfl, ?_⟩, flush_error flushed⟩
    rw [List.flatten_nil, List.append_nil, same]
  | cons part parts ih =>
    cases written : out.write part with
    | mk result middle =>
      cases result with
      | error cause =>
        simp only [Output.writeAndFlush, written, Prod.mk.injEq, Except.error.injEq] at failed
        obtain ⟨rfl, rfl⟩ := failed
        refine ⟨⟨[], part :: parts, rfl, ?_⟩, write_error written⟩
        rw [written_of_write_error written, List.flatten_nil, List.append_nil]
      | ok _ =>
        simp only [Output.writeAndFlush, written] at failed
        obtain rfl := eq_adding_of_write_ok written
        obtain ⟨⟨done, rest, rfl, behind⟩, cause⟩ := ih failed
        refine ⟨⟨part :: done, rest, rfl, ?_⟩, cause⟩
        rw [behind, written_adding, List.flatten_cons, List.append_assoc]

end Output

namespace Signal

variable {signals middle rest : List Signal} {e : RuntimeError}

/-- The error is what a look found, and what stays is all behind that look. -/
inductive Failed (signals rest : List Signal) : RuntimeError → Prop where
  | ended (front : List Signal) (usedUp : signals = front ++ .endOfInput :: rest) :
      Failed signals rest .unexpectedEof
  | exhausted (nothing : rest = []) : Failed signals rest .unexpectedEof
  | fault (front : List Signal) (reason : String) (usedUp : signals = front ++ .fault reason :: rest) :
      Failed signals rest (.io reason)

/-- Nothing is used up, or all up to the end of a line. -/
def AtLine (signals rest : List Signal) : Prop :=
  rest = signals ∨ ∃ front, signals = front ++ .byte Input.lineFeed :: rest

theorem Failed.of_suffix (failed : Failed middle rest e) (suffix : middle <:+ signals) :
    Failed signals rest e := by
  obtain ⟨front, rfl⟩ := suffix
  cases failed with
  | ended later usedUp => exact .ended (front ++ later) (by rw [usedUp, List.append_assoc])
  | exhausted nothing => exact .exhausted nothing
  | fault later reason usedUp => exact .fault (front ++ later) reason (by rw [usedUp, List.append_assoc])

theorem AtLine.of_line (atLine : AtLine middle rest) {line : List Signal}
    (dropped : signals = line ++ .byte Input.lineFeed :: middle) : AtLine signals rest := by
  rcases atLine with rfl | ⟨more, rfl⟩
  · exact .inr ⟨line, dropped⟩
  · refine .inr ⟨line ++ .byte Input.lineFeed :: more, ?_⟩
    rw [dropped, List.append_assoc, List.cons_append]

/-- The last signal in front of the rest is no fault. -/
theorem AtLine.not_failed (atLine : AtLine signals rest) (reason : String) :
    ¬ Failed signals rest (.io reason) := by
  intro failed
  cases failed with
  | fault front _ usedUp =>
    rcases atLine with rfl | ⟨line, dropped⟩
    · have length := congrArg List.length usedUp
      simp only [List.length_append, List.length_cons] at length
      omega
    · rw [usedUp] at dropped
      have last := List.append_inj_right' dropped rfl
      simp at last

theorem skipSeparators_failed (skipped : skipSeparators signals = (.error e, rest)) :
    Failed signals rest e := by
  fun_induction skipSeparators signals with
  | case1 =>
    cases skipped
    exact .exhausted rfl
  | case2 b later separator ih => exact (ih skipped).of_suffix (List.suffix_cons ..)
  | case3 => cases skipped
  | case4 later =>
    cases skipped
    exact .ended [] rfl
  | case5 reason later =>
    cases skipped
    exact .fault [] reason rfl

theorem takeToken_failed (taken : takeToken signals = (.error e, rest)) : Failed signals rest e := by
  fun_induction takeToken signals generalizing rest with
  | case1 | case2 | case4 => cases taken
  | case3 b later other result behind found ih =>
    cases result with
    | ok token => cases taken
    | error cause =>
      cases taken
      exact (ih found).of_suffix (List.suffix_cons ..)
  | case5 reason later =>
    cases taken
    exact .fault [] reason rfl

theorem readToken_failed (read : readToken signals = (.error e, rest)) : Failed signals rest e := by
  cases skipped : skipSeparators signals with
  | mk result behind =>
    simp only [readToken, skipped] at read
    cases result with
    | error cause =>
      cases read
      exact skipSeparators_failed skipped
    | ok _ =>
      have suffix := skipSeparators_suffix signals
      rw [skipped] at suffix
      exact (takeToken_failed read).of_suffix suffix

theorem discardLine_failed (discarded : discardLine signals = (.error e, rest)) :
    Failed signals rest e := by
  fun_induction discardLine signals with
  | case1 =>
    cases discarded
    exact .exhausted rfl
  | case2 => cases discarded
  | case3 b later other ih => exact (ih discarded).of_suffix (List.suffix_cons ..)
  | case4 later =>
    cases discarded
    exact .ended [] rfl
  | case5 reason later =>
    cases discarded
    exact .fault [] reason rfl

theorem discardLine_line (discarded : discardLine signals = (.ok (), rest)) :
    ∃ line, signals = line ++ .byte Input.lineFeed :: rest := by
  fun_induction discardLine signals with
  | case1 | case4 | case5 => cases discarded
  | case2 later =>
    cases discarded
    exact ⟨[], rfl⟩
  | case3 b later other ih =>
    obtain ⟨line, rfl⟩ := ih discarded
    exact ⟨.byte b :: line, rfl⟩

end Signal

namespace Input

variable {input rest : Input} {e : RuntimeError}

theorem readToken_failed (read : input.readToken = (.error e, rest)) :
    Signal.Failed input.signals rest.signals e := by
  have signals := readToken_signals input
  rw [read] at signals
  exact Signal.readToken_failed signals

theorem discardLine_failed (discarded : input.discardLine = (.error e, rest)) :
    Signal.Failed input.signals rest.signals e := by
  have signals := discardLine_signals input
  rw [discarded] at signals
  exact Signal.discardLine_failed signals

/-- A token and the line behind it end with a line feed. -/
theorem line_of_round {behind next : Input} {token : Bytes}
    (read : input.readToken = (.ok token, behind)) (discarded : behind.discardLine = (.ok (), next)) :
    ∃ line, input.signals = line ++ .byte lineFeed :: next.signals := by
  have signals := discardLine_signals behind
  rw [discarded] at signals
  obtain ⟨line, dropped⟩ := Signal.discardLine_line signals
  obtain ⟨front, parts⟩ := readToken_suffix read
  exact ⟨front ++ line, by rw [← parts, dropped, List.append_assoc]⟩

end Input

/-- The rounds that a read recovered from, as they are shown. -/
def recoveries (prompt suffix : Bytes) (rounds : Nat) : Bytes :=
  (List.replicate rounds (prompt ++ suffix ++ invalidInputNotice)).flatten

theorem recoveries_succ (prompt suffix : Bytes) (rounds : Nat) :
    recoveries prompt suffix (rounds + 1) =
      prompt ++ suffix ++ invalidInputNotice ++ recoveries prompt suffix rounds := by
  simp [recoveries, List.replicate_succ]

variable {heap : Heap} {input : Input} {output after : Output} {prompt suffix : Bytes} {tag : TypeTag}
  {e : RuntimeError}

/-- How a reading stands at its end. -/
structure Reading.Stands (reading : Reading) (input : Input) (output : Output) (prompt suffix : Bytes)
    (rounds : Nat) (tail : Bytes) : Prop where
  shown : reading.output.written = output.written ++ (recoveries prompt suffix rounds ++ tail)
  front : tail ∈ [[], prompt, prompt ++ suffix]
  /-- A prompt that breaks off could not be written, where a line began. -/
  short : tail ≠ prompt ++ suffix → (∃ reason, reading.result = .error (.io reason)) ∧
    Signal.AtLine input.signals reading.input.signals

theorem stands_of_failed_prompt (failed : output.writeAndFlush [prompt, suffix] = (.error e, after)) :
    ∃ tail, Reading.Stands ⟨.error e, heap, input, after, []⟩ input output prompt suffix 0 tail := by
  obtain ⟨⟨done, rest, parts, shown⟩, reason, rfl, _⟩ := Output.writeAndFlush_error failed
  have fronts : done.flatten ∈ [[], prompt, prompt ++ suffix] := by
    have member : done ∈ [prompt, suffix].inits := (List.mem_inits ..).mpr ⟨rest, parts.symm⟩
    simpa using List.mem_map_of_mem (f := List.flatten) member
  exact ⟨done.flatten, shown, fronts, fun _ => ⟨⟨reason, rfl⟩, .inl rfl⟩⟩

/-- A round that was prompted, and that ends the read without a notice. -/
theorem stands_of_last_round {last : Output}
    (written : output.writeAndFlush [prompt, suffix] = (.ok (), after))
    (same : last.written = after.written) (result : Outcome Value) (next : Heap) (rest : Input)
    (rejected : List Bytes) :
    Reading.Stands ⟨result, next, rest, last, rejected⟩ input output prompt suffix 0
      (prompt ++ suffix) := by
  have whole := Output.eq_adding_of_writeAndFlush_ok written
  refine ⟨?_, by simp, fun short => absurd rfl short⟩
  rw [same, whole]
  simp [recoveries]

/-- By induction on the rounds. -/
theorem askUntilValid_stands (heap : Heap) (input : Input) (output : Output) (prompt suffix : Bytes)
    (tag : TypeTag) :
    ∃ rounds tail, (askUntilValid heap input output prompt suffix tag).Stands input output prompt
      suffix rounds tail := by
  fun_induction askUntilValid heap input output prompt suffix tag with
  | case1 heap input output e after failed =>
    exact ⟨0, stands_of_failed_prompt failed⟩
  | case2 heap input output after written
  | case3 heap input output after written
  | case4 heap input output after written
  | case5 heap input output after written =>
    exact ⟨0, _, stands_of_last_round written rfl ..⟩
  | case6 heap input output after written token rest read next parsed left discarded e full failed =>
    exact ⟨0, _, stands_of_last_round written (Output.written_of_write_error failed) ..⟩
  | case7 heap input output after written token rest read next parsed left discarded noted note
      shorter later =>
    rename_i ih
    obtain ⟨rounds, tail, stands⟩ := ih
    obtain ⟨line, dropped⟩ := Input.line_of_round read discarded
    refine ⟨rounds + 1, tail, ?_, stands.front, ?_⟩
    · have prompted := Output.eq_adding_of_writeAndFlush_ok written
      have noticed := Output.eq_adding_of_write_ok note
      rw [stands.shown, noticed, prompted]
      simp [recoveries_succ]
    · intro short
      obtain ⟨result, atLine⟩ := stands.short short
      exact ⟨result, atLine.of_line dropped⟩

theorem parseToken_error (wanted : tag ∈ [.int, .float, .string, .bool]) {token : Bytes} {next : Heap}
    (failed : parseToken heap tag token = (.error e, next)) : e = .capacityExhausted .string := by
  cases tag with
  | string =>
    by_cases full : heap.strings.isFull
    · simp only [parseToken, Heap.createString_of_isFull full, Except.map, Prod.mk.injEq,
        Except.error.injEq] at failed
      exact failed.1.symm
    · simp [parseToken, Heap.createString_of_not_isFull full, Except.map] at failed
  | int | float | bool => simp [parseToken] at failed
  | char | none | list => simp at wanted

/-- An error of a read comes from a look at its input, from its output, or from a heap without room. -/
theorem askUntilValid_error (wanted : tag ∈ [.int, .float, .string, .bool])
    (failed : (askUntilValid heap input output prompt suffix tag).result = .error e) :
    Signal.Failed input.signals (askUntilValid heap input output prompt suffix tag).input.signals e ∨
      (∃ reason, e = .io reason ∧ output.sink.Gives reason) ∨ e = .capacityExhausted .string := by
  fun_induction askUntilValid heap input output prompt suffix tag with
  | case1 heap input output cause after unwritten =>
    cases failed
    exact .inr (.inl (Output.writeAndFlush_error unwritten).2)
  | case2 heap input output after written cause rest read =>
    cases failed
    exact .inl (Input.readToken_failed read)
  | case3 heap input output after written token rest read cause next refused =>
    cases failed
    exact .inr (.inr (parseToken_error wanted refused))
  | case4 => cases failed
  | case5 heap input output after written token rest read next parsed cause left discarded =>
    cases failed
    exact .inl ((Input.discardLine_failed discarded).of_suffix (Input.readToken_suffix read))
  | case6 heap input output after written token rest read next parsed left discarded cause full unnoticed =>
    cases failed
    obtain rfl := Output.eq_adding_of_writeAndFlush_ok written
    have refused := Output.write_error unnoticed
    exact .inr (.inl refused)
  | case7 heap input output after written token rest read next parsed left discarded =>
    rename_i noted note _ _ ih
    have suffix := (Input.discardLine_suffix discarded).trans (Input.readToken_suffix read)
    obtain rfl := Output.eq_adding_of_writeAndFlush_ok written
    obtain rfl := Output.eq_adding_of_write_ok note
    exact (ih failed).imp_left (·.of_suffix suffix)

theorem readTyped_of_unknown (unknown : tag ∉ [.int, .float, .string, .bool]) :
    readTyped heap input output prompt tag =
      ⟨.error (.unknownTag tag.letter), heap, input, output, []⟩ := by
  cases tag with
  | int | float | string | bool => simp at unknown
  | char | none | list => rfl

/-- A read of a value at every outcome, on any input and with any output. It has shown some rounds that it
recovered from and a front part of the next prompt with its suffix, all of it where it answers with a
value or with an error of its input; errors are those of the input, of the output, or of a heap
without room. Where the first prompt cannot be shown, nothing of the input is used up; a type that
cannot be read changes nothing at all; and what stays unread is always an end part of the bytes. -/
theorem readTyped_stands (heap : Heap) (input : Input) (output : Output) (prompt : Bytes)
    (tag : TypeTag) :
    let reading := readTyped heap input output prompt tag
    (tag ∈ [.int, .float, .string, .bool] →
      ∃ suffix : String, tag.promptSuffix = .ok suffix ∧
        (∃ rounds, ∃ tail ∈ [[], prompt, prompt ++ Utf8.ofString suffix],
          reading.output.written =
            output.written ++ recoveries prompt (Utf8.ofString suffix) rounds ++ tail ∧
          ((∃ v, reading.result = .ok v) ∨
            (∃ e, reading.result = .error e ∧ Signal.Failed input.signals reading.input.signals e) →
              tail = prompt ++ Utf8.ofString suffix)) ∧
        (∀ e, reading.result = .error e → Signal.Failed input.signals reading.input.signals e ∨
          (∃ reason, e = .io reason ∧ output.sink.Gives reason) ∨ e = .capacityExhausted .string) ∧
        ∀ e after, output.writeAndFlush [prompt, Utf8.ofString suffix] = (.error e, after) →
          reading.result = .error e ∧ reading.input = input) ∧
    (tag ∉ [.int, .float, .string, .bool] →
      reading = ⟨.error (.unknownTag tag.letter), heap, input, output, []⟩) ∧
    reading.input.unread <:+ input.unread := by
  intro reading
  refine ⟨?_, fun unknown => readTyped_of_unknown unknown,
    Input.unread_suffix (readTyped_suffix heap input output prompt tag)⟩
  intro wanted
  obtain ⟨suffix, known⟩ := exists_promptSuffix wanted
  have asking : reading = askUntilValid heap input output prompt (Utf8.ofString suffix) tag := by
    simp only [reading, readTyped, known]
  refine ⟨suffix, known, ?_, ?_, ?_⟩
  · obtain ⟨rounds, tail, stands⟩ :=
      askUntilValid_stands heap input output prompt (Utf8.ofString suffix) tag
    rw [← asking] at stands
    refine ⟨rounds, tail, stands.front, ?_, ?_⟩
    · rw [stands.shown, List.append_assoc]
    · intro reached
      by_contra short
      obtain ⟨⟨reason, result⟩, atLine⟩ := stands.short short
      rcases reached with ⟨v, valid⟩ | ⟨e, failed, look⟩
      · rw [valid] at result
        cases result
      · rw [failed] at result
        cases result
        exact atLine.not_failed _ look
  · intro e failed
    rw [asking] at failed ⊢
    exact askUntilValid_error wanted failed
  · intro e after unwritten
    rw [asking, askUntilValid_eq, unwritten]
    exact ⟨rfl, rfl⟩

/-- A fault behind a recovered round. -/
theorem readTyped_stands_once :
    let suffix := Utf8.ofString " (expecting int): "
    let input : Input := [.data [0x78, 0x0A], .interrupted, .data [0x20], .fault "disk", .data [0x35]]
    let reading := readTyped (.empty .addressable none) input (.empty none false) [0x3F] .int
    TypeTag.int ∈ [.int, .float, .string, .bool] ∧
      (reading.result = .error (.io "disk") ∧
        Signal.Failed input.signals reading.input.signals (.io "disk")) ∧
      (∃ rounds, reading.output.written = recoveries [0x3F] suffix rounds ++ ([0x3F] ++ suffix)) ∧
      reading.input.unread <:+ [0x78, 0x0A, 0x20, 0x35] := by
  intro suffix input reading
  have wanted : TypeTag.int ∈ [.int, .float, .string, .bool] := by decide
  have ending : (reading.result, reading.input) = (.error (.io "disk"), [.data [0x35]]) := by
    decide +kernel
  obtain ⟨broken, left⟩ := Prod.mk.inj ending
  have look : Signal.Failed input.signals reading.input.signals (.io "disk") := by
    rw [left]
    exact .fault [.byte 0x78, .byte 0x0A, .byte 0x20] "disk" rfl
  obtain ⟨reads, _, unread⟩ := readTyped_stands (.empty .addressable none) input (.empty none false) [0x3F] .int
  obtain ⟨known, same, ⟨rounds, tail, _, shown, whole⟩, _⟩ := reads wanted
  obtain rfl : " (expecting int): " = known := Except.ok.inj same
  obtain rfl := whole (.inr ⟨_, broken, look⟩)
  exact ⟨wanted, ⟨broken, look⟩, ⟨rounds, shown⟩, unread⟩

end ScriptHost
