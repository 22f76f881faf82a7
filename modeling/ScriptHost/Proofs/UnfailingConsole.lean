import ScriptHost.Console.Print
import ScriptHost.Proofs.TokenStream

/-! Reading and printing on a console that does not fail: output without a limit, and input of bytes
only. What is written goes behind what was written before and depends on nothing else of it, and what
is read is a front part of the bytes. -/
namespace ScriptHost

open Utf8 (Bytes)

namespace Output

/-- The sink refuses no write, and no flush fails. -/
structure Unfailing (out : Output) : Prop where
  writes : ∀ calls written bytes, out.sink.refusal? calls written bytes = none
  flushes : ∀ calls written, out.sink.fault? calls written = none

variable {out : Output}

theorem unfailing_empty : (empty none false).Unfailing := ⟨fun _ _ _ => rfl, fun _ _ => rfl⟩

theorem eq_adding_of_writeAndFlush_ok {next : Output} {parts : List Bytes}
    (done : out.writeAndFlush parts = (.ok (), next)) :
    next = out.adding (parts.length + 1) parts.flatten := by
  induction parts generalizing out with
  | nil =>
    rw [Output.writeAndFlush, flush] at done
    split at done
    · cases done
    · exact (congrArg Prod.snd done).symm
  | cons part parts ih =>
    cases written : out.write part with
    | mk result middle =>
      cases result with
      | error e => simp [Output.writeAndFlush, written] at done
      | ok _ =>
        simp only [Output.writeAndFlush, written] at done
        rw [ih done, eq_adding_of_write_ok written, adding_adding, List.flatten_cons, List.length_cons,
          Nat.add_comm 1]

theorem Unfailing.takes (unfailing : out.Unfailing) (count : Nat) : out.Takes count :=
  ⟨fun _ _ _ _ => unfailing.writes _ _ _, fun _ _ _ => unfailing.flushes _ _⟩

theorem Unfailing.adding (unfailing : out.Unfailing) (calls : Nat) (bytes : Bytes) :
    (out.adding calls bytes).Unfailing := ⟨unfailing.writes, unfailing.flushes⟩

theorem Unfailing.write (unfailing : out.Unfailing) (bytes : Bytes) :
    out.write bytes = (.ok (), out.adding 1 bytes) := (unfailing.takes (bytes.length + 0)).write

theorem Unfailing.writeAndFlush (unfailing : out.Unfailing) (parts : List Bytes) :
    out.writeAndFlush parts = (.ok (), out.adding (parts.length + 1) parts.flatten) :=
  (unfailing.takes (parts.flatten.length + 0)).writeAndFlush

end Output

/-! What a reader leaves of its input is an end part of it. -/

namespace Signal

theorem skipSeparators_suffix (signals : List Signal) : (skipSeparators signals).2 <:+ signals := by
  fun_induction skipSeparators signals with
  | case1 => exact List.suffix_rfl
  | case2 b rest separator ih => exact ih.trans (List.suffix_cons ..)
  | case3 b rest other => exact List.suffix_rfl
  | case4 rest | case5 reason rest => exact List.suffix_cons ..

theorem takeToken_suffix (signals : List Signal) : (takeToken signals).2 <:+ signals := by
  fun_induction takeToken signals with
  | case1 => exact List.suffix_rfl
  | case2 b rest separator => exact List.suffix_rfl
  | case3 b rest other result behind taken ih =>
    rw [taken] at ih
    exact ih.trans (List.suffix_cons ..)
  | case4 rest | case5 reason rest => exact List.suffix_cons ..

theorem readToken_suffix (signals : List Signal) : (readToken signals).2 <:+ signals := by
  have skipped := skipSeparators_suffix signals
  unfold readToken
  split
  · next e rest failed =>
    rw [failed] at skipped
    exact skipped
  · next rest found =>
    rw [found] at skipped
    exact (takeToken_suffix rest).trans skipped

theorem discardLine_suffix (signals : List Signal) : (discardLine signals).2 <:+ signals := by
  fun_induction discardLine signals with
  | case1 => exact List.suffix_rfl
  | case2 rest => exact List.suffix_cons ..
  | case3 b rest other ih => exact ih.trans (List.suffix_cons ..)
  | case4 rest | case5 reason rest => exact List.suffix_cons ..

end Signal

namespace Input

variable {input rest : Input}

theorem readToken_suffix {result : Outcome Bytes} (read : input.readToken = (result, rest)) :
    rest.signals <:+ input.signals := by
  have suffix := Signal.readToken_suffix input.signals
  rw [readToken_signals, read] at suffix
  exact suffix

theorem discardLine_suffix {result : Outcome Unit} (discarded : input.discardLine = (result, rest)) :
    rest.signals <:+ input.signals := by
  have suffix := Signal.discardLine_suffix input.signals
  rw [discardLine_signals, discarded] at suffix
  exact suffix

/-- Nothing but bytes: no look at the input fails, and its only end is behind the last byte. -/
def Plain (input : Input) : Prop := input.signals = input.unread.map .byte

theorem plain_data (bytes : Bytes) : Plain [.data bytes] := by
  simp [Plain]

theorem Plain.streams (plain : input.Plain) : input.Streams input.unread :=
  ⟨0, by rw [plain]; simp⟩

theorem unread_suffix (suffix : rest.signals <:+ input.signals) : rest.unread <:+ input.unread := by
  rw [unread_eq_filterMap, unread_eq_filterMap]
  exact suffix.filterMap _

theorem Plain.of_suffix (plain : input.Plain) (suffix : rest.signals <:+ input.signals) :
    rest.Plain := by
  obtain ⟨front, parts⟩ := suffix
  rw [plain] at parts
  obtain ⟨read, left, _, _, signals⟩ := List.map_eq_append_iff.mp parts.symm
  rw [Plain, unread_eq_filterMap, ← signals, Signal.filterMap_byte?_bytes]

end Input

/-- The prompts of some rounds with the notices between them, the last round without one. -/
def dialogue (prompt suffix : Bytes) (rejections : Nat) : Bytes :=
  (List.replicate rejections (prompt ++ suffix ++ invalidInputNotice)).flatten ++ (prompt ++ suffix)

/-- The writes and flushes of a dialogue: two and one for each prompt, and one for each notice. -/
def dialogueCalls (rejections : Nat) : Nat := 4 * rejections + 3

theorem dialogueCalls_succ (rejections : Nat) :
    dialogueCalls (rejections + 1) = 3 + 1 + dialogueCalls rejections := by
  simp only [dialogueCalls]
  omega

variable {input : Input} {output other : Output} {tag : TypeTag}

theorem askUntilValid_suffix (heap : Heap) (input : Input) (output : Output)
    (prompt suffix : Bytes) (tag : TypeTag) :
    (askUntilValid heap input output prompt suffix tag).input.signals <:+ input.signals := by
  fun_induction askUntilValid heap input output prompt suffix tag with
  | case1 => exact List.suffix_rfl
  | case2 heap input output after written e rest read
  | case3 heap input output after written token rest read e next parsed
  | case4 heap input output after written token rest read value next parsed =>
    exact Input.readToken_suffix read
  | case5 heap input output after written token rest read next parsed e left discarded
  | case6 heap input output after written token rest read next parsed left discarded =>
    exact (Input.discardLine_suffix discarded).trans (Input.readToken_suffix read)
  | case7 heap input output after written token rest read next parsed left discarded =>
    rename_i ih
    exact ih.trans ((Input.discardLine_suffix discarded).trans (Input.readToken_suffix read))

theorem dialogue_succ (prompt suffix : Bytes) (rejections : Nat) :
    dialogue prompt suffix (rejections + 1) =
      prompt ++ suffix ++ invalidInputNotice ++ dialogue prompt suffix rejections := by
  simp [dialogue, List.replicate_succ]

/-- On outputs that do not fail a read takes one course, which shows behind what stands there. -/
theorem askUntilValid_output (first : output.Unfailing) (second : other.Unfailing) (heap : Heap)
    (input : Input) (prompt suffix : Bytes) (tag : TypeTag) :
    ∃ rejections,
      (askUntilValid heap input output prompt suffix tag).output =
        output.adding (dialogueCalls rejections) (dialogue prompt suffix rejections) ∧
      askUntilValid heap input other prompt suffix tag =
        { askUntilValid heap input output prompt suffix tag with
          output := other.adding (dialogueCalls rejections) (dialogue prompt suffix rejections) } := by
  have prompted {out : Output} (unfailing : out.Unfailing) :
      out.writeAndFlush [prompt, suffix] =
        (.ok (), out.adding (dialogueCalls 0) (dialogue prompt suffix 0)) := by
    rw [unfailing.writeAndFlush]
    simp [dialogue, dialogueCalls]
  fun_induction askUntilValid heap input output prompt suffix tag generalizing other with
  | case1 heap input output e after failed =>
    rw [prompted first] at failed
    cases failed
  -- Four ways for a read to end with nothing shown behind its prompt.
  | case2 heap input output after written
  | case3 heap input output after written
  | case4 heap input output after written
  | case5 heap input output after written =>
    rw [prompted first] at written
    cases written
    refine ⟨0, rfl, ?_⟩
    rw [askUntilValid_eq, prompted second]
    simp only [*]
  | case6 heap input output after written token rest read next parsed left discarded e full failed =>
    rw [prompted first] at written
    cases written
    rw [(first.adding _ _).write] at failed
    cases failed
  | case7 heap input output after written token rest read next parsed left discarded noted note =>
    rename_i ih
    rw [prompted first] at written
    cases written
    rw [(first.adding _ _).write, Output.adding_adding] at note
    cases note
    obtain ⟨rejections, shown, same⟩ := ih (first.adding _ _)
      (second.adding (dialogueCalls 0 + 1) (dialogue prompt suffix 0 ++ invalidInputNotice))
    have further : dialogue prompt suffix 0 ++ invalidInputNotice ++ dialogue prompt suffix rejections =
        dialogue prompt suffix (rejections + 1) := by
      rw [dialogue_succ]
      simp [dialogue]
    have calls : dialogueCalls 0 + 1 + dialogueCalls rejections = dialogueCalls (rejections + 1) :=
      (dialogueCalls_succ rejections).symm
    rw [Output.adding_adding, further, calls] at shown same
    refine ⟨rejections + 1, shown, ?_⟩
    rw [askUntilValid_eq, prompted second]
    simp only [read, parsed, discarded, (second.adding _ _).write, Output.adding_adding, same]
    rfl

theorem readTyped_suffix (heap : Heap) (input : Input) (output : Output) (prompt : Bytes)
    (tag : TypeTag) :
    (readTyped heap input output prompt tag).input.signals <:+ input.signals := by
  unfold readTyped
  split
  · exact List.suffix_rfl
  · exact askUntilValid_suffix ..

/-- What a read shows, and with how many writes and flushes: nothing for a type that cannot be read, and a
dialogue for any other. -/
def Shows (prompt : Bytes) (tag : TypeTag) (calls : Nat) (text : Bytes) : Prop :=
  (calls = 0 ∧ text = []) ∨ ∃ suffix rejections, tag.promptSuffix = .ok suffix ∧
    calls = dialogueCalls rejections ∧ text = dialogue prompt (Utf8.ofString suffix) rejections

theorem readTyped_output (first : output.Unfailing) (second : other.Unfailing) (heap : Heap)
    (input : Input) (prompt : Bytes) (tag : TypeTag) :
    ∃ calls text, Shows prompt tag calls text ∧
      (readTyped heap input output prompt tag).output = output.adding calls text ∧
      readTyped heap input other prompt tag =
        { readTyped heap input output prompt tag with output := other.adding calls text } := by
  unfold readTyped
  split
  · exact ⟨0, [], .inl ⟨rfl, rfl⟩, by rw [Output.adding_zero], by rw [Output.adding_zero]⟩
  · next suffix known =>
    obtain ⟨rejections, shown, same⟩ :=
      askUntilValid_output first second heap input prompt (Utf8.ofString suffix) tag
    exact ⟨_, _, .inr ⟨suffix, rejections, known, rfl, rfl⟩, shown, same⟩

/-- A line is printed whole, with a write and a flush, or its first item without a text is the answer. -/
theorem printItems_output (unfailing : output.Unfailing) (heap : Heap)
    (items : List (TypeTag × Value)) :
    printItems heap output items = ((lineText heap items).map fun _ => (),
      (lineText heap items).toOption.elim output (output.adding 2)) := by
  cases line : lineText heap items with
  | error e =>
    simp only [printItems_eq, line]
    simp [Except.map, Except.toOption]
  | ok text =>
    simp only [printItems_eq, line, unfailing.writeAndFlush]
    simp [Except.map, Except.toOption]

end ScriptHost
