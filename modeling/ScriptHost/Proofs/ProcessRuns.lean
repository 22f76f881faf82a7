import ScriptHost.Process.Call
import ScriptHost.Proofs.HeapInvariant

/-! The heap of a running program. Logging never touches it, so what a call does to the heap is one heap
operation or nothing; only a heap that is dropped leaves an empty one behind. -/
namespace ScriptHost

open Utf8 (Bytes)

def Heap.afterAny (heap : Heap) : Option Heap.Operation → Heap
  | none => heap
  | some op => (heap.perform op).2

namespace Process

/-- The heap that the next operation finds. -/
def heap (p : Process) : Heap := p.demandHeap.1.heap

/-- The operation by which a call may change the heap, if it comes to that. -/
def operation? (p : Process) : Call → Option Heap.Operation
  | .cleanUp | .cleanUpCounts => some .releaseAll
  | .createString bytes => some (.createString (bytes.getD []))
  | .concatStrings a b => some (.concatStrings (.ofBits a) (.ofBits b))
  | .newList length => some (.newListChecked length)
  | .fillNext h value => value.decode.toOption.map (.fillNext (.ofBits h))
  | .append h value => value.decode.toOption.map (.append (.ofBits h))
  | .listSlice h start stop => some (.listSlice (.ofBits h) start stop)
  | .input prompt tag =>
    (TypeTag.ofByte tag).toOption.bind fun tag =>
      (promptFor prompt tag).toOption.map (.readTyped p.input p.output · tag)
  | _ => none

variable {p : Process} {live : LiveHeap} {c : Call} {α : Type}

theorem log_eq (p : Process) (event : LogEvent) :
    ∃ errors, p.log event = { p with errors := errors } := by
  unfold log
  split
  · exact ⟨p.errors, rfl⟩
  · split
    · exact ⟨_, rfl⟩
    · exact ⟨p.errors, rfl⟩

theorem logAll_eq (p : Process) (events : List LogEvent) :
    ∃ errors, p.logAll events = { p with errors := errors } := by
  induction events generalizing p with
  | nil => exact ⟨p.errors, rfl⟩
  | cons event rest ih =>
    obtain ⟨first, logged⟩ := p.log_eq event
    obtain ⟨last, more⟩ := ih (p.log event)
    refine ⟨last, ?_⟩
    rw [logAll, List.foldl_cons, ← logAll, more, logged]

theorem heap_of_live (alive : p.live = some live) : p.heap = live.heap := by
  simp only [heap, demandHeap, alive]

theorem heap_of_not_live (dropped : p.live = none) :
    ∃ limit, p.heap = .empty p.platform.allocator limit := by
  simp only [heap, demandHeap, dropped]
  exact ⟨_, rfl⟩

theorem heap_logAll (alive : p.live = some live) (events : List LogEvent) :
    (p.logAll events).heap = live.heap := by
  obtain ⟨errors, logged⟩ := p.logAll_eq events
  rw [logged]
  exact heap_of_live alive

/-- A process that needs a heap gets one, and otherwise at most logs. -/
theorem demandHeap_eq (p : Process) :
    ∃ errors filter, p.demandHeap.2 =
      { p with live := some p.demandHeap.1, errors := errors, logFilter := filter } := by
  cases alive : p.live with
  | some live =>
    simp only [demandHeap, alive]
    exact ⟨p.errors, p.logFilter, by rw [← alive]⟩
  | none =>
    simp only [demandHeap, alive]
    obtain ⟨errors, logged⟩ := p.installLog.logAll_eq _
    rw [logged]
    cases installed : p.logFilter with
    | some shows => simp only [installLog, installed]; exact ⟨_, _, rfl⟩
    | none => simp only [installLog, installed]; exact ⟨_, _, rfl⟩

theorem live_demandHeap (p : Process) : p.demandHeap.2.live = some p.demandHeap.1 := by
  obtain ⟨_, _, same⟩ := p.demandHeap_eq
  rw [same]

theorem input_demandHeap (p : Process) : p.demandHeap.2.input = p.input := by
  obtain ⟨_, _, same⟩ := p.demandHeap_eq
  rw [same]

theorem output_demandHeap (p : Process) : p.demandHeap.2.output = p.output := by
  obtain ⟨_, _, same⟩ := p.demandHeap_eq
  rw [same]

theorem heap_setHeap (p : Process) (live : LiveHeap) (heap : Heap) :
    (p.setHeap live heap).heap = heap := by
  have alive : (p.setHeap live heap).live = some { live with heap := heap } := rfl
  exact heap_of_live alive

theorem heap_setHeap_logAll (p : Process) (live : LiveHeap) (heap : Heap) (events : List LogEvent) :
    ((p.setHeap live heap).logAll events).heap = heap := by
  have alive : (p.setHeap live heap).live = some { live with heap := heap } := rfl
  exact heap_logAll alive events

theorem heap_demandHeap (p : Process) : p.demandHeap.2.heap = p.heap :=
  heap_of_live p.live_demandHeap

/-! Each way to run something on the heap. -/

theorem withHeap_eq (p : Process) (operation : Heap → Outcome α × Heap)
    (events : α → Heap → List LogEvent) :
    p.withHeap operation events =
      match operation p.heap with
      | (.error e, heap) => (.error e, p.demandHeap.2.setHeap p.demandHeap.1 heap)
      | (.ok a, heap) =>
        (.ok a, (p.demandHeap.2.setHeap p.demandHeap.1 heap).logAll (events a heap)) := rfl

/-- An operation answers and changes the heap as it does alone. -/
theorem withHeap_eq_operation (p : Process) (operation : Heap → Outcome α × Heap)
    (events : α → Heap → List LogEvent) :
    (p.withHeap operation events).1 = (operation p.heap).1 ∧
      (p.withHeap operation events).2.heap = (operation p.heap).2 := by
  rw [withHeap_eq]
  cases operation p.heap with
  | mk result next =>
    cases result with
    | error e => exact ⟨rfl, heap_setHeap ..⟩
    | ok a => exact ⟨rfl, heap_setHeap_logAll ..⟩

theorem storing_of_error {value : RawValue} {e : RuntimeError} (rejected : value.decode = .error e)
    (operation : Heap → Value → Outcome Unit × Heap) : p.storing value operation = (.error e, p) := by
  simp only [storing, rejected]

theorem storing_of_ok {value : RawValue} {v : Value} (decoded : value.decode = .ok v)
    (operation : Heap → Value → Outcome Unit × Heap) :
    (p.storing value operation).1 = (operation p.heap v).1 ∧
      (p.storing value operation).2.heap = (operation p.heap v).2 := by
  simp only [storing, decoded]
  exact p.withHeap_eq_operation (operation · v) _

/-- A raw value that does not decode is stored nowhere. -/
theorem heap_storing (p : Process) (value : RawValue)
    {operation : Heap → Value → Outcome Unit × Heap} {stores : Value → Heap.Operation}
    (performs : ∀ heap v, (operation heap v).2 = (heap.perform (stores v)).2) :
    (p.storing value operation).2.heap = p.heap.afterAny (value.decode.toOption.map stores) := by
  cases decoded : value.decode with
  | error e =>
    rw [storing_of_error decoded]
    rfl
  | ok v =>
    rw [(storing_of_ok decoded operation).2, performs]
    rfl

theorem heap_read (p : Process) (prompt : Bytes) (tag : TypeTag) :
    (p.read prompt tag).2.heap = (readTyped p.heap p.input p.output prompt tag).heap := by
  let reading := readTyped p.heap p.demandHeap.2.input p.demandHeap.2.output prompt tag
  let next : Process := { p.demandHeap.2.setHeap p.demandHeap.1 reading.heap with
    input := reading.input, output := reading.output }
  have alive : next.live = some { p.demandHeap.1 with heap := reading.heap } := rfl
  have read : (p.read prompt tag).2.heap = reading.heap := heap_logAll alive _
  rw [read, ← p.input_demandHeap, ← p.output_demandHeap]

theorem heap_print (p : Process) (items : List (TypeTag × Value)) :
    (p.print items).2.heap = p.heap := by
  have alive : (p.print items).2.live = some p.demandHeap.1 := p.live_demandHeap
  exact heap_of_live alive

theorem heap_cleanUp (p : Process) : p.cleanUp.2.heap = p.heap.releaseAll.2 :=
  heap_setHeap_logAll ..

/-- A call changes the heap by its operation, if it has one. -/
theorem heap_call (kept : c ≠ .takeHeap) : (p.call c).2.heap = p.heap.afterAny (p.operation? c) := by
  cases c with
  | init => exact p.heap_demandHeap
  | cleanUp => exact p.heap_cleanUp
  | cleanUpCounts => exact p.heap_cleanUp
  | takeHeap => exact absurd rfl kept
  | stats | stringBytes h | listGet h index | listLength h => exact p.heap_demandHeap
  | createString bytes =>
    exact (p.withHeap_eq_operation (·.createString (bytes.getD [])) stringEvents).2
  | concatStrings a b =>
    exact (p.withHeap_eq_operation (·.concatStrings (.ofBits a) (.ofBits b)) concatenationEvents).2
  | newList length => exact (p.withHeap_eq_operation (·.newListChecked length) listEvents).2
  | listSlice h start stop =>
    exact (p.withHeap_eq_operation (·.listSlice (.ofBits h) start stop) listEvents).2
  | fillNext h value => exact p.heap_storing value fun _ _ => rfl
  | append h value => exact p.heap_storing value fun _ _ => rfl
  | input prompt letter =>
    cases known : TypeTag.ofByte letter with
    | error e => simp only [call, answer, ask, operation?, known]; rfl
    | ok tag =>
      cases shown : promptFor prompt tag with
      | error e =>
        simp only [call, answer, ask, operation?, known, Except.toOption, Option.bind_some, shown]
        rfl
      | ok text =>
        simp only [call, answer, ask, operation?, known, Except.toOption, Option.bind_some, shown]
        exact p.heap_read text tag
  | print count items =>
    simp only [call, answer, printRaw]
    cases ((items.getD []).take count.toInt.toNat).mapM RawValue.toItem with
    | error e => rfl
    | ok items => exact p.heap_print items
  | printValue tag value => exact p.heap_print _

/-- In every state of a program the heap is sound, for the limit that it was made with. -/
def Sound (p : Process) : Prop := ∃ limit, p.heap.Sound limit

theorem sound_of_not_live (dropped : p.live = none) : p.Sound := by
  obtain ⟨limit, same⟩ := heap_of_not_live dropped
  exact ⟨limit, same ▸ Heap.sound_empty p.platform.allocator limit⟩

theorem Sound.call (sound : p.Sound) (c : Call) : (p.call c).2.Sound := by
  by_cases drops : c = .takeHeap
  · subst drops
    exact sound_of_not_live rfl
  · obtain ⟨limit, kept⟩ := sound
    refine ⟨limit, ?_⟩
    rw [heap_call drops]
    cases p.operation? c with
    | none => exact kept
    | some op => exact kept.perform op

end Process

namespace Execution

variable {p : Process} {c : Call} {first later : List Call}

/-- The first call of a program that does not fail, and the program behind it. -/
theorem run_cons_of_ok (ran : (run p (c :: later)).failure = none) :
    ∃ reply next, p.call c = (.ok reply, next) ∧ (run next later).failure = none ∧
      run p (c :: later) = { run next later with replies := reply :: (run next later).replies } := by
  cases called : p.call c with
  | mk result next =>
    cases result with
    | error e => simp [run, called] at ran
    | ok reply =>
      simp only [run, called] at ran ⊢
      exact ⟨reply, next, rfl, ran, rfl⟩

theorem run_append_of_ok (ran : (run p (first ++ later)).failure = none) :
    (run p first).failure = none ∧ (run p first).replies.length = first.length ∧
      run p (first ++ later) = { run (run p first).final later with
        replies := (run p first).replies ++ (run (run p first).final later).replies } := by
  induction first generalizing p with
  | nil => exact ⟨rfl, rfl, rfl⟩
  | cons c rest ih =>
    rw [List.cons_append] at ran ⊢
    obtain ⟨reply, next, called, behind, whole⟩ := run_cons_of_ok ran
    obtain ⟨succeeded, count, split⟩ := ih behind
    have front : run p (c :: rest) =
        { run next rest with replies := reply :: (run next rest).replies } := by
      simp only [run, called]
    rw [whole, front, split]
    exact ⟨succeeded, congrArg (· + 1) count, rfl⟩

/-- A call in the middle of a program that does not fail. -/
theorem run_split_at (ran : (run p (first ++ c :: later)).failure = none) :
    ∃ reply next, (run p first).failure = none ∧ (run p first).final.call c = (.ok reply, next) ∧
      (run next later).failure = none ∧
      (run p (first ++ c :: later)).final = (run next later).final ∧
      (run p (first ++ c :: later)).replies[first.length]? = some reply := by
  obtain ⟨begun, count, split⟩ := run_append_of_ok ran
  rw [split] at ran ⊢
  obtain ⟨reply, next, called, succeeded, behind⟩ := run_cons_of_ok ran
  refine ⟨reply, next, begun, called, succeeded, ?_, ?_⟩
  · rw [behind]
  · rw [behind, List.getElem?_append_right (Nat.le_of_eq count), count, Nat.sub_self]
    rfl

theorem sound_final (sound : p.Sound) (ran : (run p first).failure = none) :
    (run p first).final.Sound := by
  induction first generalizing p with
  | nil => exact sound
  | cons c rest ih =>
    obtain ⟨reply, next, called, behind, whole⟩ := run_cons_of_ok ran
    have step := sound.call c
    rw [called] at step
    rw [whole]
    exact ih step behind

end Execution
end ScriptHost
