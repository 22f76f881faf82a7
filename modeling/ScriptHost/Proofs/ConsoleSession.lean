import ScriptHost.Proofs.InputSignals

/-! Sessions at a console: runs of the calls that read from it. All that a session shows is settled
by the signals of its input, so inputs with one normal form show the same. -/
namespace ScriptHost

open Utf8 (Bytes)

namespace Input

/-- Puts bytes in front of an input, into its first chunk if it begins with one. -/
def prepend (bytes : Bytes) : Input → Input
  | .data more :: rest => .data (bytes ++ more) :: rest
  | rest => .data bytes :: rest

/-- The input without interruptions and empty chunks, and with adjacent chunks merged. -/
def normalize : Input → Input
  | [] => []
  | .interrupted :: rest => normalize rest
  | .data [] :: rest => normalize rest
  | .data bytes :: rest => prepend bytes (normalize rest)
  | event :: rest => event :: normalize rest

theorem signals_prepend (bytes : Bytes) (input : Input) :
    (prepend bytes input).signals = bytes.map .byte ++ input.signals := by
  unfold prepend
  split
  · simp
  · rfl

theorem signals_normalize (input : Input) : (normalize input).signals = input.signals := by
  fun_induction normalize input with
  | case1 => rfl
  | case2 rest ih => exact ih
  | case3 rest ih => exact ih
  | case4 bytes rest some ih => rw [signals_prepend, ih, signals_data]
  | case5 event rest notInterrupted notEmpty notData ih =>
    cases event with
    | data bytes => exact absurd rfl (notData bytes)
    | interrupted => exact absurd rfl notInterrupted
    | endOfInput | fault reason => exact congrArg (_ :: ·) ih

theorem signals_eq_of_normalize_eq {a b : Input} (same : a.normalize = b.normalize) :
    a.signals = b.signals := by
  rw [← signals_normalize a, same, signals_normalize b]

/-- A call that consumes input and does nothing else. -/
inductive Scan where
  | token
  | line

inductive Scanned where
  | token (result : Outcome Bytes)
  | line (result : Outcome Unit)

def scan (input : Input) : Scan → Scanned × Input
  | .token =>
    let (result, rest) := input.readToken
    (.token result, rest)
  | .line =>
    let (result, rest) := input.discardLine
    (.line result, rest)

variable {a b rest : Input}

theorem readToken_congr (same : a.signals = b.signals) {result : Outcome Bytes}
    (read : a.readToken = (result, rest)) :
    ∃ other, b.readToken = (result, other) ∧ rest.signals = other.signals := by
  have left := readToken_signals a
  have right := readToken_signals b
  rw [same, right, read, Prod.mk.injEq] at left
  obtain ⟨results, rests⟩ := left
  exact ⟨b.readToken.2, Prod.ext results rfl, rests.symm⟩

theorem discardLine_congr (same : a.signals = b.signals) {result : Outcome Unit}
    (discarded : a.discardLine = (result, rest)) :
    ∃ other, b.discardLine = (result, other) ∧ rest.signals = other.signals := by
  have left := discardLine_signals a
  have right := discardLine_signals b
  rw [same, right, discarded, Prod.mk.injEq] at left
  obtain ⟨results, rests⟩ := left
  exact ⟨b.discardLine.2, Prod.ext results rfl, rests.symm⟩

theorem scan_congr (same : a.signals = b.signals) (s : Scan) :
    (a.scan s).1 = (b.scan s).1 ∧ (a.scan s).2.signals = (b.scan s).2.signals := by
  cases s with
  | token =>
    cases read : a.readToken with
    | mk result rest =>
      obtain ⟨other, otherRead, rests⟩ := readToken_congr same read
      simp only [scan, read, otherRead, rests, and_self]
  | line =>
    cases discarded : a.discardLine with
    | mk result rest =>
      obtain ⟨other, otherDiscarded, rests⟩ := discardLine_congr same discarded
      simp only [scan, discarded, otherDiscarded, rests, and_self]

end Input

/-- Readings that differ at most in the cuts and interruptions of the input that they left. -/
structure Reading.Alike (r s : Reading) : Prop where
  result : r.result = s.result
  heap : r.heap = s.heap
  output : r.output = s.output
  rejected : r.rejected = s.rejected
  input : r.input.signals = s.input.signals

/-- Round by round, two inputs of the same signals give the same token and lose the same line. -/
theorem askUntilValid_congr {a b : Input} (same : a.signals = b.signals) (heap : Heap)
    (output : Output) (prompt suffix : Bytes) (tag : TypeTag) :
    (askUntilValid heap a output prompt suffix tag).Alike
      (askUntilValid heap b output prompt suffix tag) := by
  fun_induction askUntilValid heap a output prompt suffix tag generalizing b with
  | case1 heap a output e after failed =>
    rw [askUntilValid_eq heap b, failed]
    exact ⟨rfl, rfl, rfl, rfl, same⟩
  | case2 heap a output after written e rest read =>
    obtain ⟨other, otherRead, rests⟩ := Input.readToken_congr same read
    rw [askUntilValid_eq heap b, written]
    simp only [otherRead]
    exact ⟨rfl, rfl, rfl, rfl, rests⟩
  | case3 heap a output after written token rest read e next parsed =>
    obtain ⟨other, otherRead, rests⟩ := Input.readToken_congr same read
    rw [askUntilValid_eq heap b, written]
    simp only [otherRead, parsed]
    exact ⟨rfl, rfl, rfl, rfl, rests⟩
  | case4 heap a output after written token rest read value next parsed =>
    obtain ⟨other, otherRead, rests⟩ := Input.readToken_congr same read
    rw [askUntilValid_eq heap b, written]
    simp only [otherRead, parsed]
    exact ⟨rfl, rfl, rfl, rfl, rests⟩
  | case5 heap a output after written token rest read next parsed e left discarded =>
    obtain ⟨other, otherRead, rests⟩ := Input.readToken_congr same read
    obtain ⟨line, otherDiscarded, lines⟩ := Input.discardLine_congr rests discarded
    rw [askUntilValid_eq heap b, written]
    simp only [otherRead, parsed, otherDiscarded]
    exact ⟨rfl, rfl, rfl, rfl, lines⟩
  | case6 heap a output after written token rest read next parsed left discarded e full failed =>
    obtain ⟨other, otherRead, rests⟩ := Input.readToken_congr same read
    obtain ⟨line, otherDiscarded, lines⟩ := Input.discardLine_congr rests discarded
    rw [askUntilValid_eq heap b, written]
    simp only [otherRead, parsed, otherDiscarded, failed]
    exact ⟨rfl, rfl, rfl, rfl, lines⟩
  | case7 heap a output after written token rest read next parsed left discarded noted note
      shorter later =>
    rename_i ih
    obtain ⟨other, otherRead, rests⟩ := Input.readToken_congr same read
    obtain ⟨line, otherDiscarded, lines⟩ := Input.discardLine_congr rests discarded
    have again := ih lines
    rw [askUntilValid_eq heap b, written]
    simp only [otherRead, parsed, otherDiscarded, note]
    exact ⟨again.result, again.heap, again.output, congrArg (token :: ·) again.rejected, again.input⟩

theorem readTyped_congr {a b : Input} (same : a.signals = b.signals) (heap : Heap)
    (output : Output) (prompt : Bytes) (tag : TypeTag) :
    (readTyped heap a output prompt tag).Alike (readTyped heap b output prompt tag) := by
  unfold readTyped
  split
  · exact ⟨rfl, rfl, rfl, rfl, same⟩
  · exact askUntilValid_congr same heap output prompt _ tag

structure Session where
  heap : Heap
  input : Input
  output : Output

namespace Session

inductive Call where
  | readTyped (prompt : Bytes) (tag : TypeTag)
  | scan (s : Input.Scan)

inductive Answer where
  /-- The value, and the tokens that were rejected on the way to it. -/
  | value (result : Outcome Value) (rejected : List Bytes)
  | scanned (result : Input.Scanned)

/-- All that can be seen of a call: its answer and, behind it, the heap, the output and the bytes
that it left unread. -/
structure Observation where
  answer : Answer
  heap : Heap
  output : Output
  unread : Bytes

def call (s : Session) : Call → Answer × Session
  | .readTyped prompt tag =>
    let reading := ScriptHost.readTyped s.heap s.input s.output prompt tag
    (.value reading.result reading.rejected, ⟨reading.heap, reading.input, reading.output⟩)
  | .scan how =>
    let (result, rest) := s.input.scan how
    (.scanned result, { s with input := rest })

def observations (s : Session) : List Call → List Observation
  | [] => []
  | c :: rest =>
    let (answer, next) := s.call c
    ⟨answer, next.heap, next.output, next.input.unread⟩ :: next.observations rest

variable {s t : Session}

/-- Sessions that differ at most in the cuts and interruptions of their inputs. -/
structure Alike (s t : Session) : Prop where
  heap : s.heap = t.heap
  output : s.output = t.output
  input : s.input.signals = t.input.signals

theorem Alike.call (alike : s.Alike t) (c : Call) :
    (s.call c).1 = (t.call c).1 ∧ (s.call c).2.Alike (t.call c).2 := by
  obtain ⟨heap, a, output⟩ := s
  obtain ⟨_, b, _⟩ := t
  obtain ⟨rfl, rfl, same⟩ := alike
  cases c with
  | readTyped prompt tag =>
    have readings := readTyped_congr same heap output prompt tag
    simp only [Session.call, readings.result, readings.rejected, true_and]
    exact ⟨readings.heap, readings.output, readings.input⟩
  | scan how =>
    obtain ⟨results, rests⟩ := Input.scan_congr same how
    simp only [Session.call, results, true_and]
    exact ⟨rfl, rfl, rests⟩

theorem Alike.observations (alike : s.Alike t) (calls : List Call) :
    s.observations calls = t.observations calls := by
  induction calls generalizing s t with
  | nil => rfl
  | cons c rest ih =>
    obtain ⟨answers, next⟩ := alike.call c
    have unread : (s.call c).2.input.unread = (t.call c).2.input.unread := by
      rw [Input.unread_eq_filterMap, next.input, Input.unread_eq_filterMap]
    simp only [Session.observations, answers, next.heap, next.output, unread, ih next]

/-- How the bytes of an input are cut into chunks, and where looks at it are interrupted, shows in no
session: not in the answers, the heap, the output, or the bytes left unread, behind any call. -/
theorem observations_of_normalize_eq {a b : Input} (same : a.normalize = b.normalize) (heap : Heap)
    (output : Output) (calls : List Call) :
    observations ⟨heap, a, output⟩ calls = observations ⟨heap, b, output⟩ calls := by
  have alike : Alike ⟨heap, a, output⟩ ⟨heap, b, output⟩ :=
    ⟨rfl, rfl, Input.signals_eq_of_normalize_eq same⟩
  exact alike.observations calls

theorem observations_of_normalize_eq_once :
    let cut : Input := [.data [0x34], .interrupted, .data [], .data [0x78, 0x0A, 0x37], .endOfInput,
      .interrupted, .data [0x0A], .data [0x38]]
    let whole : Input := [.data [0x34, 0x78, 0x0A, 0x37], .endOfInput, .data [0x0A, 0x38]]
    let calls : List Call := [.readTyped [0x3F] .int, .scan .line, .readTyped [] .string]
    cut.normalize = whole.normalize ∧
      observations ⟨.empty .addressable none, cut, .empty none false⟩ calls =
        observations ⟨.empty .addressable none, whole, .empty none false⟩ calls := by
  intro cut whole calls
  have same : cut.normalize = whole.normalize := rfl
  exact ⟨same, observations_of_normalize_eq same _ _ calls⟩

end Session
end ScriptHost
