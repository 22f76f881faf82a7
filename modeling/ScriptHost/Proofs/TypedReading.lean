import ScriptHost.Proofs.Creation
import ScriptHost.Proofs.UnfailingConsole

/-! Reads of a value as rounds of questions to a stream of bytes. A round takes the next word of the
stream; a word that fits ends the interview with its delimiter still unread, and one that does not is
dropped with the rest of its line. -/
namespace ScriptHost

open Utf8 (Bytes)

/-- What asking a stream of bytes comes to. -/
structure Interview (α : Type) where
  /-- What the first word that fits stands for; none where the stream ends before. -/
  answer : Option α
  left : Bytes
  /-- The words that did not fit and whose lines were complete. -/
  recovered : Nat

/-- The line of a word that does not fit ends in front of the end of the stream. -/
theorem length_behind_line_lt {stream behind next : Bytes} {b feed : UInt8}
    (found : stream.dropWhile isSeparator = b :: behind)
    (ended : ((b :: behind).dropWhile (!isSeparator ·)).dropWhile (· != Input.lineFeed) = feed :: next) :
    next.length < stream.length := by
  have gap := Input.length_dropWhile_le isSeparator stream
  have word := Input.length_dropWhile_le (!isSeparator ·) (b :: behind)
  have line := Input.length_dropWhile_le (· != Input.lineFeed) ((b :: behind).dropWhile (!isSeparator ·))
  rw [found] at gap
  rw [ended, List.length_cons] at line
  omega

def interview {α : Type} (fits : Bytes → Option α) (stream : Bytes) : Interview α :=
  match found : stream.dropWhile isSeparator with
  | [] => ⟨none, [], 0⟩
  | b :: behind =>
    match fits ((b :: behind).takeWhile (!isSeparator ·)) with
    | some value => ⟨some value, (b :: behind).dropWhile (!isSeparator ·), 0⟩
    | none =>
      match ended : ((b :: behind).dropWhile (!isSeparator ·)).dropWhile (· != Input.lineFeed) with
      | [] => ⟨none, [], 0⟩
      | _ :: next =>
        have := length_behind_line_lt found ended
        let later := interview fits next
        { later with recovered := later.recovered + 1 }
  termination_by stream.length

/-- The value of a token that fits, and the heap that holds it. -/
def fitting (heap : Heap) (tag : TypeTag) (token : Bytes) : Option (Value × Heap) :=
  match parseToken heap tag token with
  | (.ok (some value), next) => some (value, next)
  | _ => none

variable {heap : Heap} {input : Input} {output : Output} {bytes prompt suffix : Bytes} {tag : TypeTag}

theorem parseToken_of_fitting {token : Bytes} {value : Value} {next : Heap}
    (fit : fitting heap tag token = some (value, next)) :
    parseToken heap tag token = (.ok (some value), next) := by
  unfold fitting at fit
  split at fit
  · next parsed =>
    cases fit
    exact parsed
  · cases fit

/-- With room for a string, a token of a type that can be read leaves the heap alone where it does not
fit. -/
theorem parseToken_of_not_fitting (room : ¬ heap.strings.isFull)
    (wanted : tag ∈ [.int, .float, .string, .bool]) {token : Bytes}
    (unfit : fitting heap tag token = none) : parseToken heap tag token = (.ok none, heap) := by
  cases parsed : parseToken heap tag token with
  | mk result next =>
    cases result with
    | ok found =>
      cases found with
      | some value =>
        rw [fitting, parsed] at unfit
        cases unfit
      | none => rw [Heap.parseToken_of_none parsed]
    | error e =>
      cases tag with
      | string =>
        simp [parseToken, Heap.createString_of_not_isFull room, Except.map] at parsed
      | int | float | bool => simp [parseToken] at parsed
      | char | none | list => simp at wanted

/-- What a read comes to when its rounds go as an interview does. -/
structure Reading.Follows (reading : Reading) (heap : Heap) (asked : Interview (Value × Heap)) :
    Prop where
  result : reading.result = asked.answer.elim (.error .unexpectedEof) (.ok ·.1)
  heap : reading.heap = asked.answer.elim heap (·.2)
  input : reading.input.Streams asked.left

theorem prompted_of_takes {count : Nat} (takes : output.Takes ((prompt ++ suffix).length + count)) :
    output.writeAndFlush [prompt, suffix] = (.ok (), output.adding 3 (prompt ++ suffix)) ∧
      (output.adding 3 (prompt ++ suffix)).Takes count := by
  have shown : [prompt, suffix].flatten = prompt ++ suffix := by simp
  have left := takes.adding 3
  rw [← shown] at takes
  have written := takes.writeAndFlush
  rw [shown] at written
  exact ⟨written, left⟩

theorem prompted_last (takes : output.Takes (dialogue prompt suffix 0).length) :
    output.writeAndFlush [prompt, suffix] =
      (.ok (), output.adding (dialogueCalls 0) (dialogue prompt suffix 0)) := by
  have single : dialogue prompt suffix 0 = prompt ++ suffix := by simp [dialogue]
  rw [single] at takes ⊢
  have exactly : output.Takes ((prompt ++ suffix).length + 0) := takes
  exact (prompted_of_takes exactly).1

/-- By induction on the rounds of the interview, each of which finds the stream that the one before it
left. -/
theorem askUntilValid_follows (room : ¬ heap.strings.isFull)
    (wanted : tag ∈ [.int, .float, .string, .bool]) (stream : input.Streams bytes)
    (takes : output.Takes
      (dialogue prompt suffix (interview (fitting heap tag) bytes).recovered).length) :
    (askUntilValid heap input output prompt suffix tag).Follows heap
        (interview (fitting heap tag) bytes) ∧
      (askUntilValid heap input output prompt suffix tag).output =
        output.adding (dialogueCalls (interview (fitting heap tag) bytes).recovered)
          (dialogue prompt suffix (interview (fitting heap tag) bytes).recovered) := by
  fun_induction interview (fitting heap tag) bytes generalizing input output with
  | case1 bytes blank =>
    obtain ⟨rest, read, streamed⟩ := Input.readToken_of_blank stream blank
    rw [askUntilValid_eq]
    simp only [prompted_last takes, read]
    exact ⟨⟨rfl, rfl, streamed⟩, trivial⟩
  | case2 bytes b behind found value fit =>
    obtain ⟨rest, read, streamed⟩ := Input.readToken_of_stop stream found
    have parsed := parseToken_of_fitting fit
    rw [askUntilValid_eq]
    simp only [prompted_last takes, read, parsed]
    exact ⟨⟨rfl, rfl, streamed⟩, trivial⟩
  | case3 bytes b behind found unfit unended =>
    obtain ⟨rest, read, streamed⟩ := Input.readToken_of_stop stream found
    have parsed := parseToken_of_not_fitting room wanted unfit
    obtain ⟨left, discarded, nothing⟩ := Input.discardLine_of_open streamed unended
    rw [askUntilValid_eq]
    simp only [prompted_last takes, read, parsed, discarded]
    exact ⟨⟨rfl, rfl, nothing⟩, trivial⟩
  | case4 bytes b behind found unfit feed next ended shorter later =>
    rename_i ih
    have takes' : output.Takes ((prompt ++ suffix).length + (invalidInputNotice.length +
        (dialogue prompt suffix later.recovered).length)) := by
      rw [dialogue_succ, List.append_assoc, List.append_assoc] at takes
      simpa only [List.length_append, Nat.add_assoc] using takes
    obtain ⟨prompted, more⟩ := prompted_of_takes takes'
    have noticed := more.write
    obtain ⟨rest, read, streamed⟩ := Input.readToken_of_stop stream found
    have parsed := parseToken_of_not_fitting room wanted unfit
    obtain ⟨left, discarded, onward⟩ := Input.discardLine_of_stop streamed ended
    obtain ⟨follows, shown⟩ := ih onward (more.adding 1)
    rw [askUntilValid_eq]
    simp only [prompted, read, parsed, discarded, noticed]
    refine ⟨⟨follows.result, follows.heap, follows.input⟩, ?_⟩
    rw [shown, Output.adding_adding, Output.adding_adding, ← List.append_assoc, ← dialogue_succ,
      ← Nat.add_assoc, ← dialogueCalls_succ]

/-- The answer to an interview is one that its test gave to some word. -/
theorem exists_word_of_answer {α : Type} {fits : Bytes → Option α} {value : α}
    (answered : (interview fits bytes).answer = some value) : ∃ word, fits word = some value := by
  fun_induction interview fits bytes with
  | case1 | case3 => cases answered
  | case2 bytes b behind found value' fit =>
    cases answered
    exact ⟨_, fit⟩
  | case4 =>
    rename_i ih
    exact ih answered

theorem fitting_string (room : ¬ heap.strings.isFull) (token : Bytes) :
    fitting heap .string token = some (.string heap.strings.nextHandle,
      { heap with strings := (heap.strings.register (.ofBytes token)).2 }) := by
  simp [fitting, parseToken, Heap.createString_of_not_isFull room, Except.map]

theorem exists_promptSuffix (wanted : tag ∈ [.int, .float, .string, .bool]) :
    ∃ suffix, tag.promptSuffix = .ok suffix := by
  cases tag with
  | int | float | string | bool => exact ⟨_, rfl⟩
  | char | none | list => simp at wanted

/-- A read of a value from a stream of bytes is an interview. On any heap with room for a string, for any
prompt and any type that can be read, and with any output that takes all that is shown: the answer and
the heap that holds it are those of the interview, or the end of the input where the interview has
none; just the bytes that the interview leaves stay unread; one notice is shown for each recovered
round, between the prompts; and the heap gains one string where a string was read, and nothing
else. -/
theorem readTyped_follows_interview (room : ¬ heap.strings.isFull)
    (wanted : tag ∈ [.int, .float, .string, .bool]) (stream : input.Streams bytes)
    (prompt : Bytes) :
    (∀ b, isSeparator b ↔ b ∈ [0x20, 0x09, 0x0A, 0x0B, 0x0C, 0x0D]) ∧
    ∃ suffix, tag.promptSuffix = .ok suffix ∧
      let asked := interview (fitting heap tag) bytes
      let shown := dialogue prompt (Utf8.ofString suffix) asked.recovered
      ∀ output : Output, output.Takes shown.length →
        let reading := readTyped heap input output prompt tag
        reading.result = asked.answer.elim (.error .unexpectedEof) (.ok ·.1) ∧
        reading.heap = asked.answer.elim heap (·.2) ∧
        reading.input.unread = asked.left ∧
        reading.output = output.adding (dialogueCalls asked.recovered) shown ∧
        (∀ v, reading.result = .ok v → tag = .string →
          v = .string heap.strings.nextHandle ∧ ∃ token : Bytes,
            reading.heap = { heap with strings := (heap.strings.register (.ofBytes token)).2 } ∧
            reading.heap.strings.toList = heap.strings.toList ++ [.ofBytes token]) ∧
        (tag ≠ .string ∨ (∃ e, reading.result = .error e) → reading.heap = heap) := by
  refine ⟨Input.isSeparator_iff, ?_⟩
  obtain ⟨suffix, known⟩ := exists_promptSuffix wanted
  refine ⟨suffix, known, ?_⟩
  intro asked shown output takes reading
  have asking : reading = askUntilValid heap input output prompt (Utf8.ofString suffix) tag := by
    simp only [reading, readTyped, known]
  obtain ⟨follows, added⟩ := askUntilValid_follows room wanted stream takes
  rw [← asking] at follows added
  refine ⟨follows.result, follows.heap, follows.input.unread, added, ?_, ?_⟩
  · intro v success string
    cases answered : asked.answer with
    | none =>
      rw [follows.result, answered] at success
      cases success
    | some found =>
      obtain ⟨token, fit⟩ := exists_word_of_answer answered
      rw [string, fitting_string room, Option.some.injEq] at fit
      have value : found.1 = v := by
        rw [follows.result, answered] at success
        exact Except.ok.inj success
      have next : reading.heap = found.2 := by rw [follows.heap, answered]; rfl
      rw [← fit] at value next
      refine ⟨value.symm, token, next, ?_⟩
      rw [next, Registry.register_of_not_isFull room, Registry.toList_push]
  · rintro (other | ⟨e, failed⟩)
    · exact Heap.heap_of_readTyped other
    · exact (Heap.readTyped_heap heap input output prompt tag).1 e failed

/-- A word that does not fit, an empty line and a word with its space, over cut and interrupted chunks. -/
theorem readTyped_follows_interview_once :
    let heap := Heap.empty .addressable (some 1)
    let input : Input := [.data [0x20, 0x78], .interrupted, .data [0x20, 0x79, 0x0A, 0x0A], .data [],
      .data [0x20, 0x34], .data [0x32, 0x20, 0x7A], .endOfInput]
    let bytes : Bytes := [0x20, 0x78, 0x20, 0x79, 0x0A, 0x0A, 0x20, 0x34, 0x32, 0x20, 0x7A]
    let suffix := Utf8.ofString " (expecting int): "
    let output := Output.empty none false
    ¬ heap.strings.isFull ∧ TypeTag.int ∈ [.int, .float, .string, .bool] ∧ input.Streams bytes ∧
      (interview (fitting heap .int) bytes).answer.map Prod.fst = some (.int 42) ∧
      (interview (fitting heap .int) bytes).left = [0x20, 0x7A] ∧
      (interview (fitting heap .int) bytes).recovered = 1 ∧
      output.Takes (dialogue [0x3F] suffix 1).length ∧
      (readTyped heap input output [0x3F] .int).result = .ok (.int 42) ∧
      (readTyped heap input output [0x3F] .int).input.unread = [0x20, 0x7A] ∧
      (readTyped heap input output [0x3F] .int).output = output.adding 7 (dialogue [0x3F] suffix 1) ∧
      (readTyped heap input output [0x3F] .int).heap = heap := by
  intro heap input bytes suffix output
  have room : ¬ heap.strings.isFull := by decide
  have wanted : TypeTag.int ∈ [.int, .float, .string, .bool] := by decide
  have stream : input.Streams bytes := ⟨1, rfl⟩
  have answered : (interview (fitting heap .int) bytes).answer.map Prod.fst = some (.int 42) := by
    decide +kernel
  have left : (interview (fitting heap .int) bytes).left = [0x20, 0x7A] := by decide +kernel
  have recovered : (interview (fitting heap .int) bytes).recovered = 1 := by decide +kernel
  have takes : output.Takes (dialogue [0x3F] suffix 1).length := Output.unfailing_empty.takes _
  have other : TypeTag.int ≠ .string := by decide
  obtain ⟨_, known, same, reads⟩ := readTyped_follows_interview room wanted stream [0x3F]
  obtain rfl : " (expecting int): " = known := Except.ok.inj same
  obtain ⟨found, answer, value⟩ := Option.map_eq_some_iff.mp answered
  simp only [recovered, left, answer] at reads
  obtain ⟨result, _, unread, shown, _, kept⟩ := reads output takes
  refine ⟨room, wanted, stream, answered, left, recovered, takes, ?_, unread, shown, kept (.inl other)⟩
  rw [result, Option.elim_some, value]

end ScriptHost
