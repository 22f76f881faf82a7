import ScriptHost.Proofs.HandleLifetime
import ScriptHost.Proofs.ListFilling

/-! What an operation leaves alone. Each kind of object has a log of its own, a new object stands
behind the old ones, and an edit reaches one list. So whatever happens elsewhere on a heap, a string
keeps its bytes, and the calls on a list are answered as if they came alone. -/
namespace ScriptHost.Heap

namespace Operation

/-- The operation can change the log of this kind; any other operation at most looks at it. -/
def mayChange : ObjectKind → Operation → Bool
  | .string, .createString _ | .string, .concatStrings .. | .string, .parseToken ..
  | .string, .readTyped .. | .string, .releaseStrings | .string, .releaseAll => true
  | .list, .newList _ | .list, .newListChecked _ | .list, .listOfValues _ | .list, .listSlice ..
  | .list, .fillNext .. | .list, .append .. | .list, .releaseLists | .list, .releaseAll => true
  | _, _ => false

/-- The operation edits the list of this handle or looks into it. -/
def isOn (h : ListHandle) : Operation → Bool
  | .fillNext g _ | .append g _ | .list g | .listGet g _ | .listLength g | .listState g
  | .listValues g | .listRange g _ _ => g == h
  | _ => false

end Operation

variable {kind : ObjectKind} {heap next : Heap} {op : Operation} {h : ListHandle} {l : ValueList}

theorem Grown.eq_of_silent {α : Type} {result : Outcome Answer} {log next : Registry kind α}
    (grown : Grown result log next) (silent : ∀ h : Handle kind, ¬ Issues result h) :
    next = log := by
  cases grown with
  | same => rfl
  | added a room issued => exact absurd issued (silent _)

theorem releases_of_fixed (fixed : op.mayChange kind = false) : op.releases kind = false := by
  cases kind <;> cases op <;> first | rfl | cases fixed

theorem edit?_of_fixed (fixed : op.mayChange .list = false) : op.edit? = none := by
  cases op <;> first | rfl | cases fixed

/-- An operation answers with a new object of a kind only if it can change the log of that kind. -/
theorem silent_of_fixed (fixed : op.mayChange kind = false) (h : Handle kind) :
    ¬ Issues (heap.perform op).1 h := by
  cases kind with
  | string =>
    cases op with
    | createString | concatStrings | parseToken | readTyped | releaseStrings | releaseAll =>
      cases fixed
    | releaseLists | stats => exact not_issues_ok rfl h
    | _ => exact not_issues_map (fun _ => rfl) _ h
  | list =>
    cases op with
    | newList | newListChecked | listOfValues | listSlice | fillNext | append | releaseLists
    | releaseAll => cases fixed
    | releaseStrings | stats => exact not_issues_ok rfl h
    | _ => exact not_issues_map (fun _ => rfl) _ h

theorem strings_of_fixed (fixed : op.mayChange .string = false) :
    (heap.perform op).2.strings = heap.strings :=
  (strings_grown heap op (releases_of_fixed fixed)).eq_of_silent (silent_of_fixed fixed)

theorem lists_of_fixed (fixed : op.mayChange .list = false) :
    (heap.perform op).2.lists = heap.lists :=
  (lists_grown heap op (releases_of_fixed fixed) (edit?_of_fixed fixed)).eq_of_silent
    (silent_of_fixed fixed)

theorem string_of_kept {h : StringHandle} {s : PooledString} (found : heap.string h = .ok s)
    (kept : op.releases .string = false) : (heap.perform op).2.string h = .ok s :=
  (strings_grown heap op kept).get_of_get found

theorem string_after {h : StringHandle} {s : PooledString} (found : heap.string h = .ok s)
    (ops : List Operation) (kept : ∀ op ∈ ops, op.releases .string = false) :
    (heap.after ops).string h = .ok s := by
  induction ops generalizing heap with
  | nil => exact found
  | cons op rest ih =>
    have first := string_of_kept found (kept op List.mem_cons_self)
    exact ih first fun later member => kept later (List.mem_cons_of_mem _ member)

theorem list_perform_of_ne {f : ValueList → Outcome Unit × ValueList}
    (edits : op.edit? = some (h, f)) {g : ListHandle} (other : g ≠ h) :
    (heap.perform op).2.list g = heap.list g := by
  rw [perform_of_edit edits]
  change (heap.lists.modify h f).2.get g = heap.lists.get g
  by_cases live : heap.lists.Resolves g
  · obtain ⟨l, found⟩ := Registry.get_of_resolves live
    rw [found]
    exact Registry.get_modify_of_ne found (Ne.symm other) f
  · have stale : ¬ (heap.lists.modify h f).2.Resolves g := by
      rw [Registry.Resolves, Registry.generation_modify, Registry.size_modify]
      exact live
    rw [Registry.get_of_not_resolves live, Registry.get_of_not_resolves stale]

theorem perform_of_edit_agrees {a b : Heap} (left : a.list h = .ok l) (right : b.list h = .ok l)
    {f : ValueList → Outcome Unit × ValueList} (edits : op.edit? = some (h, f)) :
    (a.perform op).1 = (b.perform op).1 ∧
      ∃ next, (a.perform op).2.list h = .ok next ∧ (b.perform op).2.list h = .ok next := by
  obtain ⟨leftResult, leftNext⟩ := list_of_edit left edits
  obtain ⟨rightResult, rightNext⟩ := list_of_edit right edits
  exact ⟨leftResult.trans rightResult.symm, _, leftNext, rightNext⟩

/-- The calls on a list depend on nothing but the list: on two heaps that hold the same list under a
handle they have the same result, and leave the same list. -/
theorem perform_isOn {a b : Heap} (left : a.list h = .ok l) (right : b.list h = .ok l)
    (on : op.isOn h) :
    (a.perform op).1 = (b.perform op).1 ∧
      ∃ next, (a.perform op).2.list h = .ok next ∧ (b.perform op).2.list h = .ok next := by
  cases op with
  | fillNext g v | append g v =>
    cases eq_of_beq on
    exact perform_of_edit_agrees left right rfl
  | list g | listGet g index | listLength g | listState g | listValues g
  | listRange g start stop =>
    cases eq_of_beq on
    refine ⟨?_, l, left, right⟩
    simp only [perform, looked, listGet, listLength, listState, listRange, left, right]
  | _ => cases on

/-- An operation that is not on a list, and releases no lists, leaves the list as it is. -/
theorem list_of_not_isOn (found : heap.list h = .ok l) (off : op.isOn h = false)
    (kept : op.releases .list = false) : (heap.perform op).2.list h = .ok l := by
  apply list_of_elsewhere found kept
  rintro g f edits rfl
  cases op with
  | fillNext g v | append g v =>
    cases edits
    simp [Operation.isOn] at off
  | _ => cases edits

/-- Two heaps that hold the same list under a handle. On one of them operations of all sorts are
run, on the other only those among them that are on the list. -/
theorem run_of_isOn {a b : Heap} (left : a.list h = .ok l) (right : b.list h = .ok l)
    (ops : List Operation) (kept : ∀ op ∈ ops, op.releases .list = false) :
    (a.events ops).filter (·.operation.isOn h) = b.events (ops.filter (·.isOn h)) ∧
      (a.after ops).list h = (b.after (ops.filter (·.isOn h))).list h := by
  induction ops generalizing a b l with
  | nil => exact ⟨rfl, left.trans right.symm⟩
  | cons op rest ih =>
    have keptRest : ∀ later ∈ rest, later.releases .list = false :=
      fun later member => kept later (List.mem_cons_of_mem _ member)
    cases on : op.isOn h with
    | true =>
      obtain ⟨results, next, leftNext, rightNext⟩ := perform_isOn left right on
      obtain ⟨events, final⟩ := ih leftNext rightNext keptRest
      simp only [Heap.events, after, List.filter_cons, on, if_true, results, events]
      exact ⟨trivial, final⟩
    | false =>
      have leftNext := list_of_not_isOn left on (kept op List.mem_cons_self)
      obtain ⟨events, final⟩ := ih leftNext right keptRest
      simp only [Heap.events, after, List.filter_cons, on, Bool.false_eq_true, if_false]
      exact ⟨events, final⟩

theorem stringBytes_eq_ok_iff {h : StringHandle} {bytes : Utf8.Bytes} :
    heap.stringBytes h = .ok bytes ↔ ∃ s, heap.string h = .ok s ∧ s.bytes = bytes := by
  cases read : heap.string h with
  | error e => simp [stringBytes, read, Functor.map, Except.map]
  | ok s => simp [stringBytes, read, Functor.map, Except.map]

/-- On every heap: operations on one kind of object leave the log of the other kind as it was, a new
object leaves the old ones as they were, and an edit leaves every other list as it was. A string
keeps its bytes up to the next release of the strings, and the calls on a list have the results, and
leave the contents, that they have without the other operations of a run. -/
theorem perform_stays_local (heap : Heap) :
    (∀ op : Operation, op.mayChange .string = false →
      (heap.perform op).2.strings = heap.strings) ∧
    (∀ op : Operation, op.mayChange .list = false → (heap.perform op).2.lists = heap.lists) ∧
    (∀ (op : Operation) (kind : ObjectKind) (made : Handle kind), Issues (heap.perform op).1 made →
      (∀ h s, heap.string h = .ok s → (heap.perform op).2.string h = .ok s) ∧
      (∀ h l, heap.list h = .ok l → (heap.perform op).2.list h = .ok l)) ∧
    (∀ (op : Operation) (h : ListHandle) (f : ValueList → Outcome Unit × ValueList),
      op.edit? = some (h, f) →
      (∃ entries, entries.size = heap.lists.size ∧
        (heap.perform op).2 = { heap with lists := { heap.lists with entries := entries } }) ∧
      ∀ g, g ≠ h → (heap.perform op).2.list g = heap.list g) ∧
    (∀ (h : StringHandle) (bytes : Utf8.Bytes), heap.stringBytes h = .ok bytes →
      ∀ ops : List Operation, (∀ op ∈ ops, op.releases .string = false) →
        (heap.after ops).stringBytes h = .ok bytes) ∧
    (∀ (h : ListHandle) (l : ValueList), heap.list h = .ok l →
      ∀ ops : List Operation, (∀ op ∈ ops, op.releases .list = false) →
        (heap.events ops).filter (·.operation.isOn h) = heap.events (ops.filter (·.isOn h)) ∧
        (heap.after ops).list h = (heap.after (ops.filter (·.isOn h))).list h) := by
  refine ⟨fun op fixed => strings_of_fixed fixed, fun op fixed => lists_of_fixed fixed,
    ?_, ?_, ?_, fun h l found ops kept => run_of_isOn found found ops kept⟩
  · intro op kind made issued
    have strings := strings_grown heap op (kept_of_issues issued .string)
    have lists := lists_grown heap op (kept_of_issues issued .list) (edit?_of_issues issued)
    exact ⟨fun h s found => strings.get_of_get found, fun h l found => lists.get_of_get found⟩
  · intro op h f edits
    refine ⟨?_, fun g other => list_perform_of_ne edits other⟩
    refine ⟨(heap.lists.modify h f).2.entries, Registry.size_modify .., ?_⟩
    rw [perform_of_edit edits]
    unfold Registry.modify
    split <;> rfl
  · intro h bytes read ops kept
    obtain ⟨s, found, same⟩ := stringBytes_eq_ok_iff.mp read
    exact stringBytes_eq_ok_iff.mpr ⟨s, string_after found ops kept, same⟩

/-- Two lists that hold each other's handles, filled in turns while strings come and go. -/
theorem perform_stays_local_once :
    let heap := (empty .addressable none).after [.newList 1, .newList 0, .createString [0x61]]
    let first : ListHandle := ⟨0, 0⟩
    let second : ListHandle := ⟨1, 0⟩
    let ops : List Operation := [.append second (.list first), .append first (.int 7),
      .fillNext first (.list second), .createString [0x62], .fillNext second (.int 2),
      .releaseStrings, .append first (.int 3), .listGet first 1]
    heap.list first = .ok ⟨#[], 1, 1⟩ ∧ (∀ op ∈ ops, op.releases .list = false) ∧
      (heap.after ops).list first = (heap.after [.append first (.int 7),
        .fillNext first (.list second), .append first (.int 3), .listGet first 1]).list first := by
  intro heap first second ops
  have found : heap.list first = .ok ⟨#[], 1, 1⟩ := rfl
  have kept : ∀ op ∈ ops, op.releases .list = false := by simp [ops, Operation.releases]
  obtain ⟨_, _, _, _, _, interleaved⟩ := perform_stays_local heap
  exact ⟨found, kept, (interleaved first _ found ops kept).2⟩

end ScriptHost.Heap
