import ScriptHost.Proofs.HeapOperations

/-! Failing operations leave no trace on a heap: whatever an operation changes, it changes behind its
last possible failure. -/
namespace ScriptHost

theorem ValueList.fillNext_of_error {l : ValueList} {v : Value} {e : RuntimeError}
    (failed : (l.fillNext v).1 = .error e) : (l.fillNext v).2 = l := by
  by_cases ready : l.pending = 0
  · rw [fillNext_of_ready ready]
  · rw [fillNext_of_pending ready] at failed
    cases failed

theorem ValueList.append_of_error {l : ValueList} {v : Value} {e : RuntimeError}
    (failed : (l.append v).1 = .error e) : (l.append v).2 = l := by
  by_cases ready : l.pending = 0
  · rw [append_of_ready ready] at failed
    cases failed
  · rw [append_of_pending ready]

namespace Heap

variable {heap : Heap} {e : RuntimeError}

theorem answered_of_error {α : Type} {answer : α → Answer} {outcome : Outcome α × Heap}
    (failed : (answered answer outcome).1 = .error e) : outcome = (.error e, outcome.2) := by
  obtain ⟨result, next⟩ := outcome
  cases result with
  | error cause => cases failed; rfl
  | ok a => cases failed

theorem StringCreation.heap_of_error {outcome : Outcome StringHandle × Heap}
    (creation : StringCreation heap outcome)
    (failed : (answered .newString outcome).1 = .error e) : outcome.2 = heap := by
  cases creation with
  | failed cause => rfl
  | created s room => cases failed

theorem ListCreation.heap_of_error {outcome : Outcome ListHandle × Heap}
    (creation : ListCreation heap outcome)
    (failed : (answered .newList outcome).1 = .error e) : outcome.2 = heap := by
  cases creation with
  | failed cause => rfl
  | created l room => cases failed

/-- An edit fails on a stale handle, or in a state of the list that it leaves as it is. -/
theorem perform_of_edit_error {op : Operation} {h : ListHandle}
    {f : ValueList → Outcome Unit × ValueList} (edits : op.edit? = some (h, f))
    (atomic : ∀ l cause, (f l).1 = .error cause → (f l).2 = l)
    (failed : (heap.perform op).1 = .error e) : (heap.perform op).2 = heap := by
  rw [perform_of_edit edits] at failed ⊢
  cases result : (heap.lists.modify h f).1 with
  | error cause => simp only [Registry.modify_of_error atomic result]
  | ok done => rw [result] at failed; cases failed

/-- On every heap and for all arguments, an operation that fails leaves both logs as they were:
their objects, generations, and counters. -/
theorem perform_of_error (op : Operation) (failed : (heap.perform op).1 = .error e) :
    (heap.perform op).2 = heap := by
  cases op with
  | createString bytes => exact (createString_creation heap bytes).heap_of_error failed
  | concatStrings a b => exact (concatStrings_creation heap a b).heap_of_error failed
  | newList capacity => exact (newList_creation heap capacity).heap_of_error failed
  | newListChecked capacity => exact (newListChecked_creation heap capacity).heap_of_error failed
  | listOfValues values => exact (listOfValues_creation heap values).heap_of_error failed
  | listSlice h start stop => exact (listSlice_creation heap h start stop).heap_of_error failed
  | fillNext h v => exact perform_of_edit_error rfl (fun _ _ => ValueList.fillNext_of_error) failed
  | append h v => exact perform_of_edit_error rfl (fun _ _ => ValueList.append_of_error) failed
  | parseToken tag token => exact parseToken_of_error (answered_of_error failed)
  | readTyped input output prompt tag =>
    have result := congrArg Prod.fst (answered_of_error failed)
    exact (readTyped_heap heap input output prompt tag).1 e result
  | releaseStrings | releaseLists | releaseAll | stats => cases failed
  | _ => rfl

theorem perform_of_error_once :
    let one : Value := .int 1
    let heap : Heap := ⟨.empty none, ⟨#[⟨#[one], 1, 0⟩], 0, some 1, 1, 0⟩, .addressable⟩
    let slicing : Operation := .listSlice ⟨0, 0⟩ 0 0
    (heap.perform slicing).1 = .error (.capacityExhausted .list) ∧
      (heap.perform slicing).2 = heap := by
  intro one heap slicing
  have failed : (heap.perform slicing).1 = .error (.capacityExhausted .list) := rfl
  exact ⟨failed, perform_of_error slicing failed⟩

end Heap
end ScriptHost
