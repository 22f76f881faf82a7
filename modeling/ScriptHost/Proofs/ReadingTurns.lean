import ScriptHost.Proofs.ReadingOutcomes

/-! How long reading takes. The readers of the console are loops, here turn by turn: a turn goes on behind
one more byte or one more event of the input, or it is the last one. A read of a value asks again only
behind a token and the rest of its line, so that two bytes are used up in every round but the last. -/
namespace ScriptHost

open Utf8 (Bytes)

/-- What one turn of a loop comes to. -/
inductive Turn (σ α : Type) where
  | onward (next : σ)
  | done (answer : α)

namespace Turn

variable {σ α : Type}

def resume (f : σ → α) : Turn σ α → α
  | .onward next => f next
  | .done answer => answer

@[simp] theorem resume_onward (f : σ → α) (next : σ) : (onward next).resume f = f next := rfl

@[simp] theorem resume_done (f : σ → α) (answer : α) : (done answer).resume f = answer := rfl

end Turn

section Loops

variable {σ α : Type} {turn : σ → Turn σ α}

/-- The loop has its answer after so many turns that went on. -/
inductive Ends (turn : σ → Turn σ α) : Nat → σ → α → Prop
  | done {s : σ} {answer : α} (last : turn s = .done answer) : Ends turn 0 s answer
  | onward {n : Nat} {s next : σ} {answer : α} (first : turn s = .onward next)
      (rest : Ends turn n next answer) : Ends turn (n + 1) s answer

/-- A function that the turns of a loop do not change is what the loop answers, if every turn that goes on
gets nearer to the end. -/
theorem exists_ends {f : σ → α} (size : σ → Nat)
    (shorter : ∀ s next, turn s = .onward next → size next < size s)
    (resumes : ∀ s, f s = (turn s).resume f) (s : σ) : ∃ n, Ends turn n s (f s) := by
  induction left : size s using Nat.strong_induction_on generalizing s with
  | _ _ ih =>
    subst left
    have same := resumes s
    cases came : turn s with
    | done answer =>
      rw [came] at same
      exact ⟨0, .done (same ▸ came)⟩
    | onward next =>
      rw [came] at same
      obtain ⟨n, ends⟩ := ih (size next) (shorter s next came) next rfl
      exact ⟨n + 1, .onward came (same ▸ ends)⟩

/-- A loop that uses up some of a budget in every turn that goes on. -/
theorem Ends.spent {n : Nat} {s : σ} {answer : α} (ends : Ends turn n s answer) (cost : Nat)
    (budget : σ → Nat) (left : α → Nat)
    (onward : ∀ s next, turn s = .onward next → budget next + cost ≤ budget s)
    (done : ∀ s answer, turn s = .done answer → left answer ≤ budget s) :
    n * cost + left answer ≤ budget s := by
  induction ends with
  | done last => simpa using done _ _ last
  | onward first _ ih =>
    have paid := onward _ _ first
    rw [Nat.succ_mul]
    omega

end Loops

namespace Input

/-- One byte in front is used up, or an event without bytes. -/
inductive UsesUp : Input → Input → Prop
  | byte (b : UInt8) (bytes : Bytes) (rest : Input) :
      UsesUp (.data (b :: bytes) :: rest) (.data bytes :: rest)
  | event {event : InputEvent} (nothing : event.bytes = []) (rest : Input) : UsesUp (event :: rest) rest

/-- The number of events and of bytes. -/
def size (input : Input) : Nat := input.length + input.unread.length

variable {input rest next : Input}

theorem UsesUp.size (usesUp : UsesUp input next) : next.size + 1 = input.size := by
  cases usesUp with
  | byte b bytes rest =>
    simp only [Input.size, unread_data, List.length_cons, List.length_append]
    omega
  | event nothing =>
    simp only [Input.size, unread, List.flatMap_cons, nothing, List.nil_append, List.length_cons]
    omega

/-- A reader passes over bytes up to one that stops it. -/
structure Reader (α : Type) where
  stops : UInt8 → Bool
  /-- Whether the byte that stops the reader is used up too. -/
  takesStop : Bool
  /-- The answer by the bytes that were passed. -/
  atStop : Bytes → Outcome α
  atEnd : Bytes → Outcome α

namespace Reader

variable {α : Type}

/-- One look at the input, and the byte that it saw used up; an interrupted look is repeated. -/
def turn (reader : Reader α) : Bytes × Input → Turn (Bytes × Input) (Outcome α × Input)
  | (passed, []) => .done (reader.atEnd passed, [])
  | (passed, .data [] :: rest) => .onward (passed, rest)
  | (passed, .data (b :: bytes) :: rest) =>
    if reader.stops b then
      .done (reader.atStop passed, .data (if reader.takesStop then bytes else b :: bytes) :: rest)
    else .onward (passed ++ [b], .data bytes :: rest)
  | (passed, .interrupted :: rest) => .onward (passed, rest)
  | (passed, .endOfInput :: rest) => .done (reader.atEnd passed, rest)
  | (_, .fault reason :: rest) => .done (.error (.io reason), rest)

def separators : Reader Unit where
  stops b := !isSeparator b
  takesStop := false
  atStop _ := .ok ()
  atEnd _ := .error .unexpectedEof

def token : Reader Bytes where
  stops := isSeparator
  takesStop := false
  atStop := .ok
  atEnd := .ok

def line : Reader Unit where
  stops := (· == lineFeed)
  takesStop := true
  atStop _ := .ok ()
  atEnd _ := .error .unexpectedEof

variable {reader : Reader α} {s next : Bytes × Input} {answer : Outcome α × Input}

theorem usesUp_of_onward (came : reader.turn s = .onward next) : UsesUp s.2 next.2 := by
  fun_cases reader.turn s with
  | case2 passed rest | case5 passed rest =>
    cases came
    exact .event rfl rest
  | case4 passed b bytes rest other =>
    simp only [turn, other] at came
    cases came
    exact .byte b bytes rest
  | case1 | case6 | case7 => cases came
  | case3 passed b bytes rest stop =>
    simp only [turn, stop] at came
    cases came

theorem size_le_of_done (came : reader.turn s = .done answer) : answer.2.size ≤ s.2.size := by
  fun_cases reader.turn s with
  | case1 passed =>
    cases came
    exact Nat.le_refl _
  | case3 passed b bytes rest stop =>
    simp only [turn, stop] at came
    cases came
    cases reader.takesStop <;> simp [Input.size]
  | case4 passed b bytes rest other =>
    simp only [turn, other] at came
    cases came
  | case6 passed rest | case7 _ reason rest =>
    cases came
    exact Nat.le_of_succ_le (Nat.le_of_eq (UsesUp.event rfl rest).size)
  | case2 | case5 => cases came

/-- A function that the turns of a reader do not change is what the reader answers, in no more turns that go
on than there are events and bytes. -/
theorem exists_ends {f : Bytes × Input → Outcome α × Input}
    (resumes : ∀ s, f s = (reader.turn s).resume f) (s : Bytes × Input) :
    ∃ n, Ends reader.turn n s (f s) ∧ n + (f s).2.size ≤ s.2.size := by
  have cost : ∀ s next, reader.turn s = .onward next → next.2.size + 1 ≤ s.2.size :=
    fun _ _ came => Nat.le_of_eq (usesUp_of_onward came).size
  obtain ⟨n, ends⟩ := ScriptHost.exists_ends (fun s => s.2.size) cost resumes s
  have spent := ends.spent 1 (fun s => s.2.size) (fun answer => answer.2.size) cost
    fun _ _ => size_le_of_done
  exact ⟨n, ends, by simpa using spent⟩

end Reader

theorem skipSeparators_byte (b : UInt8) (bytes : Bytes) (rest : Input) :
    skipSeparators (.data (b :: bytes) :: rest) =
      if isSeparator b then skipSeparators (.data bytes :: rest)
      else (.ok (), .data (b :: bytes) :: rest) := by
  cases separator : isSeparator b <;> simp [skipSeparators, separator]

theorem takeToken_byte (b : UInt8) (bytes : Bytes) (rest : Input) :
    takeToken (.data (b :: bytes) :: rest) =
      if isSeparator b then (.ok [], .data (b :: bytes) :: rest)
      else ((takeToken (.data bytes :: rest)).1.map (b :: ·), (takeToken (.data bytes :: rest)).2) := by
  cases separator : isSeparator b with
  | true => simp [takeToken, separator]
  | false =>
    simp only [takeToken, List.dropWhile_cons, List.takeWhile_cons, separator, Bool.not_false, if_true]
    cases bytes.dropWhile (!isSeparator ·) with
    | nil => cases (takeToken rest).1 <;> simp [Except.map]
    | cons => simp [Except.map]

theorem discardLine_byte (b : UInt8) (bytes : Bytes) (rest : Input) :
    discardLine (.data (b :: bytes) :: rest) =
      if b = lineFeed then (.ok (), .data bytes :: rest) else discardLine (.data bytes :: rest) := by
  by_cases feed : b = lineFeed <;> simp [discardLine, feed]

theorem exists_ends_skipSeparators (input : Input) :
    ∃ n, Ends Reader.separators.turn n ([], input) input.skipSeparators ∧
      n + input.skipSeparators.2.size ≤ input.size := by
  refine Reader.exists_ends (f := fun s => skipSeparators s.2) ?_ ([], input)
  rintro ⟨passed, input⟩
  match input with
  | [] | .data [] :: rest | .interrupted :: rest | .endOfInput :: rest | .fault reason :: rest => rfl
  | .data (b :: bytes) :: rest =>
    simp only [skipSeparators_byte]
    cases separator : isSeparator b <;> simp [Reader.turn, Reader.separators, separator]

theorem exists_ends_discardLine (input : Input) :
    ∃ n, Ends Reader.line.turn n ([], input) input.discardLine ∧
      n + input.discardLine.2.size ≤ input.size := by
  refine Reader.exists_ends (f := fun s => discardLine s.2) ?_ ([], input)
  rintro ⟨passed, input⟩
  match input with
  | [] | .data [] :: rest | .interrupted :: rest | .endOfInput :: rest | .fault reason :: rest => rfl
  | .data (b :: bytes) :: rest =>
    simp only [discardLine_byte]
    by_cases feed : b = lineFeed <;> simp [Reader.turn, Reader.line, feed]

/-- The answer of a token reader that passed some bytes before. -/
def tokenBehind (s : Bytes × Input) : Outcome Bytes × Input :=
  ((takeToken s.2).1.map (s.1 ++ ·), (takeToken s.2).2)

theorem tokenBehind_nil (input : Input) : tokenBehind ([], input) = input.takeToken := by
  simp only [tokenBehind, List.nil_append]
  cases taken : (takeToken input).1 <;> simp [Except.map, ← taken]

theorem exists_ends_takeToken (input : Input) :
    ∃ n, Ends Reader.token.turn n ([], input) input.takeToken ∧
      n + input.takeToken.2.size ≤ input.size := by
  rw [← tokenBehind_nil]
  refine Reader.exists_ends (f := tokenBehind) ?_ ([], input)
  rintro ⟨passed, input⟩
  match input with
  | [] | .endOfInput :: rest => simp [tokenBehind, takeToken, Reader.turn, Reader.token, Except.map]
  | .interrupted :: rest | .fault reason :: rest => rfl
  | .data [] :: rest =>
    simp only [tokenBehind, takeToken, Reader.turn, Turn.resume_onward, List.takeWhile_nil,
      List.dropWhile_nil]
    cases (takeToken rest).1 <;> rfl
  | .data (b :: bytes) :: rest =>
    cases separator : isSeparator b with
    | true => simp [tokenBehind, takeToken_byte, Reader.turn, Reader.token, separator, Except.map]
    | false =>
      simp only [tokenBehind, takeToken_byte, Reader.turn, Reader.token, separator, Bool.false_eq_true,
        if_false, Turn.resume_onward]
      cases (takeToken (.data bytes :: rest)).1 <;> simp [Except.map]

/-- A token is read by skipping the separators in front of it first. -/
inductive TokenEnds : Nat → Input → Outcome Bytes × Input → Prop
  | blank {n : Nat} {input rest : Input} {e : RuntimeError}
      (skipped : Ends Reader.separators.turn n ([], input) (.error e, rest)) :
      TokenEnds n input (.error e, rest)
  | token {n m : Nat} {input middle : Input} {answer : Outcome Bytes × Input}
      (skipped : Ends Reader.separators.turn n ([], input) (.ok (), middle))
      (taken : Ends Reader.token.turn m ([], middle) answer) : TokenEnds (n + m) input answer

theorem exists_ends_readToken (input : Input) :
    ∃ n, TokenEnds n input input.readToken ∧ n + input.readToken.2.size ≤ input.size := by
  obtain ⟨n, skipping, spent⟩ := exists_ends_skipSeparators input
  cases skipped : input.skipSeparators with
  | mk result middle =>
    rw [skipped] at skipping spent
    cases result with
    | error e =>
      have read : input.readToken = (.error e, middle) := by rw [readToken, skipped]
      rw [read]
      exact ⟨n, .blank skipping, spent⟩
    | ok _ =>
      have read : input.readToken = middle.takeToken := by rw [readToken, skipped]
      obtain ⟨m, taking, later⟩ := exists_ends_takeToken middle
      rw [read]
      refine ⟨n + m, .token skipping taking, ?_⟩
      dsimp only at spent
      omega

end Input

/-- A read of a value between two questions. -/
structure Asking where
  heap : Heap
  input : Input
  output : Output
  rejected : List Bytes

variable {prompt suffix : Bytes} {tag : TypeTag} {s next : Asking}

namespace Asking

/-- One question, up to the notice that its answer is of no use. -/
def turn (prompt suffix : Bytes) (tag : TypeTag) (s : Asking) : Turn Asking Reading :=
  match s.output.writeAndFlush [prompt, suffix] with
  | (.error e, output) => .done ⟨.error e, s.heap, s.input, output, s.rejected⟩
  | (.ok (), output) =>
    match s.input.readToken with
    | (.error e, input) => .done ⟨.error e, s.heap, input, output, s.rejected⟩
    | (.ok token, behind) =>
      match parseToken s.heap tag token with
      | (.error e, heap) => .done ⟨.error e, heap, behind, output, s.rejected⟩
      | (.ok (some value), heap) => .done ⟨.ok value, heap, behind, output, s.rejected⟩
      | (.ok none, heap) =>
        match behind.discardLine with
        | (.error e, input) => .done ⟨.error e, heap, input, output, s.rejected ++ [token]⟩
        | (.ok (), input) =>
          match output.write invalidInputNotice with
          | (.error e, output) => .done ⟨.error e, heap, input, output, s.rejected ++ [token]⟩
          | (.ok (), output) => .onward ⟨heap, input, output, s.rejected ++ [token]⟩

def reading (prompt suffix : Bytes) (tag : TypeTag) (s : Asking) : Reading :=
  let later := askUntilValid s.heap s.input s.output prompt suffix tag
  { later with rejected := s.rejected ++ later.rejected }

theorem reading_eq (prompt suffix : Bytes) (tag : TypeTag) (s : Asking) :
    s.reading prompt suffix tag = (s.turn prompt suffix tag).resume (reading prompt suffix tag) := by
  rw [reading, askUntilValid_eq]
  fun_cases turn prompt suffix tag s with
  | case7 => simp [reading, *]
  | _ => simp [*]

/-- What a question that was not the last one came to. -/
inductive Recovers (prompt suffix : Bytes) (tag : TypeTag) (s : Asking) : Asking → Prop
  | round {heap : Heap} {behind rest : Input} {prompted noticed : Output} {token : Bytes}
      (written : s.output.writeAndFlush [prompt, suffix] = (.ok (), prompted))
      (read : s.input.readToken = (.ok token, behind))
      (unfit : parseToken s.heap tag token = (.ok none, heap))
      (discarded : behind.discardLine = (.ok (), rest))
      (notice : prompted.write invalidInputNotice = (.ok (), noticed)) :
      Recovers prompt suffix tag s ⟨heap, rest, noticed, s.rejected ++ [token]⟩

theorem recovers_of_onward (came : s.turn prompt suffix tag = .onward next) :
    Recovers prompt suffix tag s next := by
  fun_cases turn prompt suffix tag s with
  | case7 prompted written token behind read heap unfit rest discarded noticed notice =>
    simp only [turn, *] at came
    cases came
    exact .round written read unfit discarded notice
  | _ =>
    simp only [turn, *] at came
    cases came

theorem Recovers.turn_eq (recovers : Recovers prompt suffix tag s next) :
    s.turn prompt suffix tag = .onward next := by
  cases recovers with
  | round written read unfit discarded notice => simp only [turn, written, read, unfit, discarded, notice]

/-- A token and the line feed behind it are two bytes at least. -/
theorem Recovers.uses_up (recovers : Recovers prompt suffix tag s next) :
    ∃ blank token line : Bytes, token ≠ [] ∧ next.rejected = s.rejected ++ [token] ∧
      s.input.unread = blank ++ token ++ line ++ Input.lineFeed :: next.input.unread := by
  cases recovers with
  | @round _ _ _ _ _ token _ read _ discarded _ =>
    obtain ⟨blank, _, some, _, front⟩ := Input.readToken_conserves read
    obtain ⟨line, _, behind⟩ := Input.discardLine_conserves discarded
    exact ⟨blank, token, line, some, rfl, by rw [front, behind, ← List.append_assoc]⟩

theorem Recovers.unread (recovers : Recovers prompt suffix tag s next) :
    next.input.unread.length + 2 ≤ s.input.unread.length := by
  obtain ⟨blank, token, line, some, _, parts⟩ := recovers.uses_up
  have one := List.length_pos_iff.mpr some
  rw [parts]
  simp only [List.length_append, List.length_cons]
  omega

theorem Recovers.output (recovers : Recovers prompt suffix tag s next) :
    next.output = s.output.adding 4 (prompt ++ suffix ++ invalidInputNotice) := by
  cases recovers with
  | round written _ _ _ notice =>
    rw [Output.eq_adding_of_write_ok notice, Output.eq_adding_of_writeAndFlush_ok written]
    simp

theorem Recovers.tag_ne_string (recovers : Recovers prompt suffix tag s next) : tag ≠ .string := by
  rintro rfl
  cases recovers with
  | @round _ _ _ _ _ token _ _ unfit _ _ =>
    have fits := congrArg Prod.fst unfit
    simp only [parseToken] at fits
    cases made : (s.heap.createString token).1 <;> simp [made, Except.map] at fits

theorem unread_of_done {reading : Reading} (came : s.turn prompt suffix tag = .done reading) :
    reading.input.unread.length ≤ s.input.unread.length := by
  have same := reading_eq prompt suffix tag s
  rw [came, Turn.resume_done] at same
  have left := askUntilValid_suffix s.heap s.input s.output prompt suffix tag
  rw [← same]
  exact (Input.unread_suffix left).length_le

theorem stands_of_done {reading : Reading} (came : s.turn prompt suffix tag = .done reading) :
    ∃ tail, reading.Stands s.input s.output prompt suffix 0 tail := by
  fun_cases turn prompt suffix tag s with
  | case1 e after failed =>
    simp only [turn, *] at came
    cases came
    have front : ∃ tail, Reading.Stands ⟨.error e, s.heap, s.input, after, []⟩ s.input s.output
        prompt suffix 0 tail := stands_of_failed_prompt failed
    obtain ⟨tail, stands⟩ := front
    exact ⟨tail, stands.shown, stands.front, stands.short⟩
  | case6 prompted written token behind read heap unfit rest discarded e after full =>
    simp only [turn, *] at came
    cases came
    exact ⟨_, stands_of_last_round written (Output.written_of_write_error full) ..⟩
  | case7 =>
    simp only [turn, *] at came
    cases came
  | case2 after written | case3 after written | case4 after written | case5 after written =>
    simp only [turn, *] at came
    cases came
    exact ⟨_, stands_of_last_round written rfl ..⟩

variable {rounds : Nat} {reading : Reading}

theorem shown_of_ends (ends : Ends (turn prompt suffix tag) rounds s reading) :
    ∃ tail ∈ [[], prompt, prompt ++ suffix],
      reading.output.written = s.output.written ++ (recoveries prompt suffix rounds ++ tail) := by
  induction ends with
  | done last =>
    obtain ⟨tail, stands⟩ := stands_of_done last
    exact ⟨tail, stands.front, stands.shown⟩
  | onward first _ ih =>
    obtain ⟨tail, front, shown⟩ := ih
    refine ⟨tail, front, ?_⟩
    rw [shown, (recovers_of_onward first).output, Output.written_adding, recoveries_succ]
    simp only [List.append_assoc]

theorem exists_ends_askUntilValid (heap : Heap) (input : Input) (output : Output) (prompt suffix : Bytes)
    (tag : TypeTag) :
    ∃ rounds, Ends (turn prompt suffix tag) rounds ⟨heap, input, output, []⟩
      (askUntilValid heap input output prompt suffix tag) := by
  have shorter : ∀ s next, turn prompt suffix tag s = .onward next →
      next.input.unread.length < s.input.unread.length :=
    fun _ _ came => Nat.lt_of_succ_lt (recovers_of_onward came).unread
  have ends := exists_ends (fun s => s.input.unread.length) shorter (reading_eq prompt suffix tag)
    ⟨heap, input, output, []⟩
  simpa only [reading, List.nil_append] using ends

theorem unread_of_ends (ends : Ends (turn prompt suffix tag) rounds s reading) :
    2 * rounds + reading.input.unread.length ≤ s.input.unread.length := by
  have spent := ends.spent 2 (fun s => s.input.unread.length)
    (fun reading => reading.input.unread.length) (fun _ _ came => (recovers_of_onward came).unread)
    fun _ _ => unread_of_done
  rwa [Nat.mul_comm] at spent

theorem single_of_string (ends : Ends (turn prompt suffix .string) rounds s reading) : rounds = 0 := by
  cases ends with
  | done => rfl
  | onward first => exact absurd rfl (recovers_of_onward first).tag_ne_string

end Asking

/-- Reading stops, whatever events the input is made of and whatever the heap and the output are. The loops
of the readers use up a byte or an event in every turn but the last one. A token that was read is not empty,
and so a read of a value asks again only behind two bytes of input, a byte of the token and the line feed:
behind `rounds` notices it has used up twice as many bytes. A string is asked for once at most. -/
theorem readers_use_up_input :
    (∀ (α : Type) (reader : Input.Reader α) (s next : Bytes × Input), reader.turn s = .onward next →
      Input.UsesUp s.2 next.2) ∧
    (∀ input : Input,
      (∃ n, Ends Input.Reader.separators.turn n ([], input) input.skipSeparators ∧
        n + input.skipSeparators.2.size ≤ input.size) ∧
      (∃ n, Input.TokenEnds n input input.readToken ∧ n + input.readToken.2.size ≤ input.size) ∧
      (∃ n, Ends Input.Reader.line.turn n ([], input) input.discardLine ∧
        n + input.discardLine.2.size ≤ input.size) ∧
      ∀ token rest, input.readToken = (.ok token, rest) → token ≠ []) ∧
    (∀ (prompt suffix : Bytes) (tag : TypeTag) (s next : Asking),
      s.turn prompt suffix tag = .onward next →
      ∃ blank token line : Bytes, token ≠ [] ∧ next.rejected = s.rejected ++ [token] ∧
        s.input.unread = blank ++ token ++ line ++ Input.lineFeed :: next.input.unread) ∧
    ∀ (heap : Heap) (input : Input) (output : Output) (prompt : Bytes) (tag : TypeTag),
      let reading := readTyped heap input output prompt tag
      (∀ suffix, tag.promptSuffix = .ok suffix →
        ∃ rounds,
          Ends (Asking.turn prompt (Utf8.ofString suffix) tag) rounds ⟨heap, input, output, []⟩ reading ∧
          (∃ tail ∈ [[], prompt, prompt ++ Utf8.ofString suffix],
            reading.output.written =
              output.written ++ recoveries prompt (Utf8.ofString suffix) rounds ++ tail) ∧
          2 * rounds + reading.input.unread.length ≤ input.unread.length ∧
          rounds + 1 ≤ 1 + input.unread.length / 2 ∧
          (tag = .string → rounds = 0)) ∧
      ∀ e, tag.promptSuffix = .error e → reading = ⟨.error e, heap, input, output, []⟩ := by
  refine ⟨fun _ _ _ _ => Input.Reader.usesUp_of_onward, fun input => ?_,
    fun _ _ _ _ _ came => (Asking.recovers_of_onward came).uses_up, ?_⟩
  · refine ⟨Input.exists_ends_skipSeparators input, Input.exists_ends_readToken input,
      Input.exists_ends_discardLine input, fun token rest read => ?_⟩
    obtain ⟨_, _, some, _⟩ := Input.readToken_conserves read
    exact some
  · intro heap input output prompt tag reading
    constructor
    · intro suffix known
      have asking : reading = askUntilValid heap input output prompt (Utf8.ofString suffix) tag := by
        simp only [reading, readTyped, known]
      obtain ⟨rounds, ends⟩ :=
        Asking.exists_ends_askUntilValid heap input output prompt (Utf8.ofString suffix) tag
      rw [← asking] at ends
      obtain ⟨tail, front, shown⟩ := Asking.shown_of_ends ends
      have spent := Asking.unread_of_ends ends
      refine ⟨rounds, ends, ⟨tail, front, ?_⟩, spent, ?_, ?_⟩
      · rw [shown, List.append_assoc]
      · dsimp only at spent
        omega
      · rintro rfl
        exact Asking.single_of_string ends
    · intro e unknown
      simp only [reading, readTyped, unknown]

/-- A rejected token, with an interruption behind it, and a second one that fits. -/
theorem readers_use_up_input_once :
    let input : Input := [.data [0x78], .interrupted, .data [0x0A, 0x37]]
    let suffix := Utf8.ofString " (expecting int): "
    let start : Asking := ⟨.empty .addressable none, input, .empty none false, []⟩
    let reading := readTyped start.heap input start.output [0x3F] .int
    Input.UsesUp input [.data [], .interrupted, .data [0x0A, 0x37]] ∧
      (∃ token rest, input.readToken = (.ok token, rest) ∧ token ≠ []) ∧
      (∃ next, start.turn [0x3F] suffix .int = .onward next ∧
        ∃ blank token line : Bytes, token ≠ [] ∧ next.rejected = [] ++ [token] ∧
          input.unread = blank ++ token ++ line ++ Input.lineFeed :: next.input.unread) ∧
      ∃ rounds ≤ 1, Ends (Asking.turn [0x3F] suffix .int) rounds start reading := by
  intro input suffix start reading
  obtain ⟨usesUp, readers, asks, reads⟩ := readers_use_up_input
  obtain ⟨-, -, -, tokens⟩ := readers input
  have read : input.readToken = (.ok [0x78], [.data [0x0A, 0x37]]) := by decide
  have unfit : parseToken start.heap .int [0x78] = (.ok none, start.heap) := by
    have nothing : numeral? Decimal.int64? [0x78] = none := by decide +kernel
    simp [parseToken, nothing]
  have room := Output.unfailing_empty
  have asked : Asking.Recovers [0x3F] suffix .int start ⟨start.heap, [.data [0x37]], _, [] ++ [[0x78]]⟩ :=
    .round (room.writeAndFlush _) read unfit rfl ((room.adding _ _).write _)
  have came := asked.turn_eq
  obtain ⟨rounds, ends, -, -, bound, -⟩ :=
    (reads start.heap input start.output [0x3F] .int).1 " (expecting int): " rfl
  have budget : input.unread.length = 3 := rfl
  rw [budget] at bound
  exact ⟨usesUp _ Input.Reader.token ([], input) ([0x78], _) rfl, ⟨_, _, read, tokens _ _ read⟩,
    ⟨_, came, asks _ _ _ _ _ came⟩, rounds, by omega, ends⟩

end ScriptHost
