import ScriptHost.Console.Print
import ScriptHost.Console.Read
import ScriptHost.Heap.Lists

/-! The operations on a heap as one type, runs of them, and what a single one can do to the two logs:
release one, add an object to it and answer with its handle, edit a list, or nothing at all. -/
namespace ScriptHost.Heap

open Utf8 (Bytes)

inductive Operation where
  | createString (bytes : Bytes)
  | concatStrings (a b : StringHandle)
  | string (h : StringHandle)
  | stringBytes (h : StringHandle)
  | lossyText (h : StringHandle)
  | stringUntilZero (h : StringHandle)
  | newList (capacity : Nat)
  | newListChecked (capacity : Int64)
  | listOfValues (values : List Value)
  | fillNext (h : ListHandle) (v : Value)
  | append (h : ListHandle) (v : Value)
  | list (h : ListHandle)
  | listGet (h : ListHandle) (index : Int64)
  | listLength (h : ListHandle)
  | listState (h : ListHandle)
  | listValues (h : ListHandle)
  | listRange (h : ListHandle) (start stop : Int64)
  | listSlice (h : ListHandle) (start stop : Int64)
  | releaseStrings
  | releaseLists
  | releaseAll
  | stats
  | parseToken (tag : TypeTag) (token : Bytes)
  | writeItem (line : Bytes) (tag : TypeTag) (value : Value)
  | printItems (out : Output) (items : List (TypeTag × Value))
  | readTyped (input : Input) (output : Output) (prompt : Bytes) (tag : TypeTag)

inductive Answer where
  | done
  | newString (h : StringHandle)
  | newList (h : ListHandle)
  | string (s : PooledString)
  | bytes (bytes : Bytes)
  | text (text : String)
  | list (l : ValueList)
  | value (v : Value)
  | values (values : List Value)
  | length (count : Nat)
  | state (state : ValueList.State)
  | released (strings lists : Nat)
  | stats (stats : HeapStats)
  /-- The value of a token that was parsed or read, if the token fits the type. -/
  | parsed (v : Option Value)

/-- The answer of an operation that may change the heap. -/
def answered {α : Type} (answer : α → Answer) : Outcome α × Heap → Outcome Answer × Heap
  | (result, heap) => (result.map answer, heap)

/-- The answer of an operation that only looks at the heap. -/
def looked {α : Type} (heap : Heap) (answer : α → Answer) (result : Outcome α) :
    Outcome Answer × Heap :=
  (result.map answer, heap)

def perform (heap : Heap) : Operation → Outcome Answer × Heap
  | .createString bytes => answered .newString (heap.createString bytes)
  | .concatStrings a b => answered .newString (heap.concatStrings a b)
  | .string h => heap.looked .string (heap.string h)
  | .stringBytes h => heap.looked .bytes (heap.stringBytes h)
  | .lossyText h => heap.looked .text (heap.lossyText h)
  | .stringUntilZero h => heap.looked .bytes (heap.stringUntilZero h)
  | .newList capacity => answered .newList (heap.newList capacity)
  | .newListChecked capacity => answered .newList (heap.newListChecked capacity)
  | .listOfValues values => answered .newList (heap.listOfValues values)
  | .fillNext h v => answered (fun _ => .done) (heap.fillNext h v)
  | .append h v => answered (fun _ => .done) (heap.append h v)
  | .list h => heap.looked .list (heap.list h)
  | .listGet h index => heap.looked .value (heap.listGet h index)
  | .listLength h => heap.looked .length (heap.listLength h)
  | .listState h => heap.looked .state (heap.listState h)
  | .listValues h => heap.looked .values ((heap.list h).bind ValueList.values)
  | .listRange h start stop => heap.looked .values (heap.listRange h start stop)
  | .listSlice h start stop => answered .newList (heap.listSlice h start stop)
  | .releaseStrings => (.ok (.released heap.releaseStrings.1 0), heap.releaseStrings.2)
  | .releaseLists => (.ok (.released 0 heap.releaseLists.1), heap.releaseLists.2)
  | .releaseAll => (.ok (.released heap.releaseAll.1.1 heap.releaseAll.1.2), heap.releaseAll.2)
  | .stats => (.ok (.stats heap.stats), heap)
  | .parseToken tag token => answered .parsed (ScriptHost.parseToken heap tag token)
  | .writeItem line tag value =>
    let (result, line) := ScriptHost.writeItem heap line tag value
    heap.looked (fun _ => .bytes line) result
  | .printItems out items => heap.looked (fun _ => .done) (ScriptHost.printItems heap out items).1
  | .readTyped input output prompt tag =>
    let reading := ScriptHost.readTyped heap input output prompt tag
    answered (fun v => .parsed (some v)) (reading.result, reading.heap)

/-- The heap behind a run of operations, failing ones included. -/
def after (heap : Heap) : List Operation → Heap
  | [] => heap
  | op :: rest => (heap.perform op).2.after rest

structure Event where
  operation : Operation
  result : Outcome Answer

def events (heap : Heap) : List Operation → List Event
  | [] => []
  | op :: rest => ⟨op, (heap.perform op).1⟩ :: (heap.perform op).2.events rest

theorem after_append (heap : Heap) (first later : List Operation) :
    heap.after (first ++ later) = (heap.after first).after later := by
  induction first generalizing heap with
  | nil => rfl
  | cons op rest ih => exact ih _

namespace Operation

def releases : ObjectKind → Operation → Bool
  | _, .releaseAll => true
  | .string, .releaseStrings => true
  | .list, .releaseLists => true
  | _, _ => false

def edit? : Operation → Option (ListHandle × (ValueList → Outcome Unit × ValueList))
  | .fillNext h v => some (h, ValueList.fillNext v)
  | .append h v => some (h, ValueList.append v)
  | _ => none

end Operation

namespace Answer

def newString? : Answer → Option StringHandle
  | .newString h => some h
  | .parsed (some (.string h)) => some h
  | _ => none

def newList? : Answer → Option ListHandle
  | .newList h => some h
  | _ => none

/-- The handle of the object of a kind that the operation created. -/
def issued? : (kind : ObjectKind) → Answer → Option (Handle kind)
  | .string, a => a.newString?
  | .list, a => a.newList?

end Answer

/-- The operation succeeded, and answered with the handle of a new object. -/
def Issues {kind : ObjectKind} (result : Outcome Answer) (h : Handle kind) : Prop :=
  ∃ a, result = .ok a ∧ a.issued? kind = some h

/-- A value that was parsed or read: a string was created for it, any other value leaves the heap as
it was. -/
def Holds (heap : Heap) (v : Value) (next : Heap) : Prop :=
  (∃ token h, heap.createString token = (.ok h, next) ∧ v = .string h) ∨
    (next = heap ∧ ∀ h, v ≠ .string h)

variable {heap next : Heap} {tag : TypeTag} {token : Bytes}

theorem createString_of_error {e : RuntimeError}
    (failed : heap.createString token = (.error e, next)) : next = heap := by
  by_cases full : heap.strings.isFull
  · rw [createString_of_isFull full] at failed
    exact (congrArg Prod.snd failed).symm
  · simp [createString_of_not_isFull full] at failed

theorem parseToken_of_error {e : RuntimeError}
    (failed : parseToken heap tag token = (.error e, next)) : next = heap := by
  cases tag with
  | string =>
    cases created : heap.createString token with
    | mk result made =>
      cases result <;> simp only [parseToken, created, Except.map, Prod.mk.injEq] at failed
      · rw [← failed.2]
        exact createString_of_error created
      · cases failed.1
  | int | float | bool | char | none | list => exact (congrArg Prod.snd failed).symm

theorem parseToken_of_none (rejected : parseToken heap tag token = (.ok none, next)) :
    next = heap := by
  cases tag with
  | string =>
    cases created : heap.createString token with
    | mk result made =>
      cases result <;> simp [parseToken, created, Except.map] at rejected
  | int | float | bool | char | none | list => exact (congrArg Prod.snd rejected).symm

theorem parseToken_of_some {v : Value} (parsed : parseToken heap tag token = (.ok (some v), next)) :
    heap.Holds v next := by
  cases tag with
  | string =>
    cases created : heap.createString token with
    | mk result made =>
      cases result <;> simp only [parseToken, created, Except.map, Prod.mk.injEq] at parsed
      · cases parsed.1
      · obtain ⟨value, rfl⟩ := parsed
        cases value
        exact .inl ⟨token, _, created, rfl⟩
  | int | float | bool =>
    right
    simp only [parseToken, Prod.mk.injEq, Except.ok.injEq, Option.map_eq_some_iff] at parsed
    obtain ⟨⟨n, _, rfl⟩, rfl⟩ := parsed
    exact ⟨rfl, fun h => by simp⟩
  | char | none | list => simp [parseToken] at parsed

/-- A rejected token leaves the heap as it was, so only the last token of a read counts. -/
theorem askUntilValid_heap (heap : Heap) (input : Input) (output : Output)
    (prompt suffix : Bytes) (tag : TypeTag) :
    let reading := askUntilValid heap input output prompt suffix tag
    (∀ e, reading.result = .error e → reading.heap = heap) ∧
      ∀ v, reading.result = .ok v → heap.Holds v reading.heap := by
  fun_induction askUntilValid heap input output prompt suffix tag with
  | case1 | case2 => simp
  | case3 heap _ _ _ _ _ _ _ _ _ parsed => simp [parseToken_of_error parsed]
  | case4 heap _ _ _ _ _ _ _ _ _ parsed => simp [parseToken_of_some parsed]
  | case5 heap _ _ _ _ _ _ _ _ parsed => simp [parseToken_of_none parsed]
  | case6 heap _ _ _ _ _ _ _ _ parsed => simp [parseToken_of_none parsed]
  | case7 heap _ _ _ _ _ _ _ next parsed _ _ _ _ _ later ih =>
    cases parseToken_of_none parsed
    exact ih

theorem readTyped_heap (heap : Heap) (input : Input) (output : Output) (prompt : Bytes)
    (tag : TypeTag) :
    let reading := readTyped heap input output prompt tag
    (∀ e, reading.result = .error e → reading.heap = heap) ∧
      ∀ v, reading.result = .ok v → heap.Holds v reading.heap := by
  unfold readTyped
  split
  · simp
  · exact askUntilValid_heap heap input output prompt _ tag

/-- What an operation did to a log that it neither released nor edited. -/
inductive Grown {kind : ObjectKind} {α : Type} (result : Outcome Answer) (log : Registry kind α) :
    Registry kind α → Prop where
  | same (silent : ∀ h : Handle kind, ¬ Issues result h) : Grown result log log
  | added (a : α) (room : ¬ log.isFull) (issued : Issues result log.nextHandle) :
      Grown result log (log.register a).2

variable {kind : ObjectKind} {α β : Type}

theorem not_issues_error (e : RuntimeError) (h : Handle kind) : ¬ Issues (.error e) h := by
  rintro ⟨a, same, _⟩
  cases same

theorem issues_ok_iff {a : Answer} {h : Handle kind} : Issues (.ok a) h ↔ a.issued? kind = some h := by
  simp [Issues]

theorem not_issues_ok {a : Answer} (silent : a.issued? kind = none) (h : Handle kind) :
    ¬ Issues (.ok a) h := by
  simp [issues_ok_iff, silent]

theorem not_issues_map {answer : β → Answer} (silent : ∀ b, (answer b).issued? kind = none)
    (result : Outcome β) (h : Handle kind) : ¬ Issues (result.map answer) h := by
  cases result with
  | error e => exact not_issues_error e h
  | ok b => exact not_issues_ok (silent b) h

theorem Grown.error {log : Registry kind α} (e : RuntimeError) : Grown (.error e) log log :=
  .same fun h => not_issues_error e h

theorem newString?_parsed {v : Value} (other : ∀ h, v ≠ .string h) :
    (Answer.parsed (some v)).newString? = none := by
  cases v with
  | string h => exact absurd rfl (other h)
  | int | float | bool | none | list => rfl

/-- A parsed or read value is issued if it is a string, and no list in any case. -/
theorem Holds.grown {v : Value} (holds : heap.Holds v next) :
    Grown (.ok (.parsed (some v))) heap.strings next.strings ∧
      Grown (.ok (.parsed (some v))) heap.lists next.lists := by
  rcases holds with ⟨token, h, created, rfl⟩ | ⟨rfl, other⟩
  · by_cases full : heap.strings.isFull
    · simp [createString_of_isFull full] at created
    · rw [createString_of_not_isFull full] at created
      cases created
      exact ⟨.added _ full (issues_ok_iff.mpr rfl), .same (not_issues_ok rfl)⟩
  · exact ⟨.same (not_issues_ok (newString?_parsed other)), .same (not_issues_ok rfl)⟩

/-- The creation of a string either failed without a trace or registered the string. -/
inductive StringCreation (heap : Heap) : Outcome StringHandle × Heap → Prop where
  | failed (e : RuntimeError) : StringCreation heap (.error e, heap)
  | created (s : PooledString) (room : ¬ heap.strings.isFull) :
      StringCreation heap (.ok heap.strings.nextHandle,
        { heap with strings := (heap.strings.register s).2 })

/-- The creation of a list either failed without a trace or registered the list. -/
inductive ListCreation (heap : Heap) : Outcome ListHandle × Heap → Prop where
  | failed (e : RuntimeError) : ListCreation heap (.error e, heap)
  | created (l : ValueList) (room : ¬ heap.lists.isFull) :
      ListCreation heap (.ok heap.lists.nextHandle,
        { heap with lists := (heap.lists.register l).2 })

theorem createString_creation (heap : Heap) (bytes : Bytes) :
    StringCreation heap (heap.createString bytes) := by
  by_cases full : heap.strings.isFull
  · rw [createString_of_isFull full]
    exact .failed _
  · rw [createString_of_not_isFull full]
    exact .created _ full

theorem concatStrings_creation (heap : Heap) (a b : StringHandle) :
    StringCreation heap (heap.concatStrings a b) := by
  cases read : heap.joined a b with
  | error e =>
    rw [concatStrings_of_error read]
    exact .failed _
  | ok s =>
    by_cases full : heap.strings.isFull
    · rw [concatStrings_of_isFull read full]
      exact .failed _
    · rw [concatStrings_of_not_isFull read full]
      exact .created _ full

theorem newList_creation (heap : Heap) (capacity : Nat) :
    ListCreation heap (heap.newList capacity) := by
  rcases heap.newList_cases capacity with refused | ⟨room, made⟩
  · rw [refused]
    exact .failed _
  · rw [made]
    exact .created _ room

theorem newListChecked_creation (heap : Heap) (capacity : Int64) :
    ListCreation heap (heap.newListChecked capacity) := by
  unfold newListChecked
  split
  · exact .failed _
  · exact newList_creation heap _

theorem listOfValues_creation (heap : Heap) (values : List Value) :
    ListCreation heap (heap.listOfValues values) := by
  rcases heap.listOfValues_cases values with refused | ⟨room, made⟩
  · rw [refused]
    exact .failed _
  · rw [made]
    exact .created _ room

theorem listSlice_creation (heap : Heap) (h : ListHandle) (start stop : Int64) :
    ListCreation heap (heap.listSlice h start stop) := by
  cases read : heap.listRange h start stop with
  | error e =>
    rw [listSlice_of_error read]
    exact .failed _
  | ok values =>
    rw [listSlice_of_range read]
    exact listOfValues_creation heap values

theorem StringCreation.grown {outcome : Outcome StringHandle × Heap}
    (creation : StringCreation heap outcome) :
    Grown (answered .newString outcome).1 heap.strings (answered .newString outcome).2.strings ∧
      Grown (answered .newString outcome).1 heap.lists (answered .newString outcome).2.lists := by
  cases creation with
  | failed e => exact ⟨.error e, .error e⟩
  | created s room => exact ⟨.added s room (issues_ok_iff.mpr rfl), .same (not_issues_ok rfl)⟩

theorem ListCreation.grown {outcome : Outcome ListHandle × Heap}
    (creation : ListCreation heap outcome) :
    Grown (answered .newList outcome).1 heap.strings (answered .newList outcome).2.strings ∧
      Grown (answered .newList outcome).1 heap.lists (answered .newList outcome).2.lists := by
  cases creation with
  | failed e => exact ⟨.error e, .error e⟩
  | created l room => exact ⟨.same (not_issues_ok rfl), .added l room (issues_ok_iff.mpr rfl)⟩

theorem parseToken_grown (heap : Heap) (tag : TypeTag) (token : Bytes) :
    let performed := heap.perform (.parseToken tag token)
    Grown performed.1 heap.strings performed.2.strings ∧
      Grown performed.1 heap.lists performed.2.lists := by
  cases parsed : parseToken heap tag token with
  | mk result next =>
    simp only [perform, answered, parsed]
    cases result with
    | error e =>
      cases parseToken_of_error parsed
      exact ⟨.error e, .error e⟩
    | ok v =>
      cases v with
      | none =>
        cases parseToken_of_none parsed
        exact ⟨.same (not_issues_ok rfl), .same (not_issues_ok rfl)⟩
      | some v => exact (parseToken_of_some parsed).grown

theorem readTyped_grown (heap : Heap) (input : Input) (output : Output) (prompt : Bytes)
    (tag : TypeTag) :
    let performed := heap.perform (.readTyped input output prompt tag)
    Grown performed.1 heap.strings performed.2.strings ∧
      Grown performed.1 heap.lists performed.2.lists := by
  obtain ⟨failed, succeeded⟩ := readTyped_heap heap input output prompt tag
  simp only [perform, answered]
  cases result : (readTyped heap input output prompt tag).result with
  | error e =>
    rw [failed e result]
    exact ⟨.error e, .error e⟩
  | ok v => exact (succeeded v result).grown

/-- An operation that does not release the strings adds at most one. -/
theorem strings_grown (heap : Heap) (op : Operation) (kept : op.releases .string = false) :
    Grown (heap.perform op).1 heap.strings (heap.perform op).2.strings := by
  cases op with
  | createString bytes => exact (createString_creation heap bytes).grown.1
  | concatStrings a b => exact (concatStrings_creation heap a b).grown.1
  | newList capacity => exact (newList_creation heap capacity).grown.1
  | newListChecked capacity => exact (newListChecked_creation heap capacity).grown.1
  | listOfValues values => exact (listOfValues_creation heap values).grown.1
  | listSlice h start stop => exact (listSlice_creation heap h start stop).grown.1
  | parseToken tag token => exact (parseToken_grown heap tag token).1
  | readTyped input output prompt tag => exact (readTyped_grown heap input output prompt tag).1
  | releaseStrings | releaseAll => cases kept
  | releaseLists | stats => exact .same (not_issues_ok rfl)
  | _ => exact .same (not_issues_map (fun _ => rfl) _)

/-- An operation that neither releases nor edits lists adds at most one. -/
theorem lists_grown (heap : Heap) (op : Operation) (kept : op.releases .list = false)
    (unedited : op.edit? = none) :
    Grown (heap.perform op).1 heap.lists (heap.perform op).2.lists := by
  cases op with
  | createString bytes => exact (createString_creation heap bytes).grown.2
  | concatStrings a b => exact (concatStrings_creation heap a b).grown.2
  | newList capacity => exact (newList_creation heap capacity).grown.2
  | newListChecked capacity => exact (newListChecked_creation heap capacity).grown.2
  | listOfValues values => exact (listOfValues_creation heap values).grown.2
  | listSlice h start stop => exact (listSlice_creation heap h start stop).grown.2
  | parseToken tag token => exact (parseToken_grown heap tag token).2
  | readTyped input output prompt tag => exact (readTyped_grown heap input output prompt tag).2
  | releaseLists | releaseAll => cases kept
  | fillNext h v | append h v => cases unedited
  | releaseStrings | stats => exact .same (not_issues_ok rfl)
  | _ => exact .same (not_issues_map (fun _ => rfl) _)

theorem Holds.allocator {v : Value} (holds : heap.Holds v next) : next.allocator = heap.allocator := by
  rcases holds with ⟨token, h, created, _⟩ | ⟨rfl, _⟩
  · have same : (heap.createString token).2.allocator = heap.allocator := rfl
    rwa [created] at same
  · rfl

theorem StringCreation.allocator {outcome : Outcome StringHandle × Heap}
    (creation : StringCreation heap outcome) : outcome.2.allocator = heap.allocator := by
  cases creation <;> rfl

theorem ListCreation.allocator {outcome : Outcome ListHandle × Heap}
    (creation : ListCreation heap outcome) : outcome.2.allocator = heap.allocator := by
  cases creation <;> rfl

theorem allocator_parseToken (heap : Heap) (tag : TypeTag) (token : Bytes) :
    (parseToken heap tag token).2.allocator = heap.allocator := by
  cases parsed : parseToken heap tag token with
  | mk result next =>
    cases result with
    | error e => rw [parseToken_of_error parsed]
    | ok v =>
      cases v with
      | none => rw [parseToken_of_none parsed]
      | some v => exact (parseToken_of_some parsed).allocator

theorem allocator_readTyped (heap : Heap) (input : Input) (output : Output) (prompt : Bytes)
    (tag : TypeTag) : (readTyped heap input output prompt tag).heap.allocator = heap.allocator := by
  obtain ⟨failed, succeeded⟩ := readTyped_heap heap input output prompt tag
  cases result : (readTyped heap input output prompt tag).result with
  | error e => rw [failed e result]
  | ok v => exact (succeeded v result).allocator

/-- No operation changes the allocator. -/
theorem allocator_perform (heap : Heap) (op : Operation) :
    (heap.perform op).2.allocator = heap.allocator := by
  cases op with
  | concatStrings a b => exact (concatStrings_creation heap a b).allocator
  | newList capacity => exact (newList_creation heap capacity).allocator
  | newListChecked capacity => exact (newListChecked_creation heap capacity).allocator
  | listOfValues values => exact (listOfValues_creation heap values).allocator
  | listSlice h start stop => exact (listSlice_creation heap h start stop).allocator
  | parseToken tag token => exact allocator_parseToken heap tag token
  | readTyped input output prompt tag => exact allocator_readTyped heap input output prompt tag
  | _ => rfl

theorem allocator_after (heap : Heap) (ops : List Operation) :
    (heap.after ops).allocator = heap.allocator := by
  induction ops generalizing heap with
  | nil => rfl
  | cons op rest ih => exact (ih _).trans (heap.allocator_perform op)

/-- An edit runs on the one list that its handle reaches. -/
theorem perform_of_edit {op : Operation} {h : ListHandle} {f : ValueList → Outcome Unit × ValueList}
    (edits : op.edit? = some (h, f)) :
    heap.perform op = ((heap.lists.modify h f).1.map fun _ => .done,
      { heap with lists := (heap.lists.modify h f).2 }) := by
  cases op with
  | fillNext g v | append g v => cases edits; rfl
  | _ => cases edits

theorem strings_of_releases {op : Operation} (releases : op.releases .string) :
    (heap.perform op).2.strings = heap.strings.release.2 := by
  cases op with
  | releaseStrings | releaseAll => rfl
  | _ => cases releases

theorem lists_of_releases {op : Operation} (releases : op.releases .list) :
    (heap.perform op).2.lists = heap.lists.release.2 := by
  cases op with
  | releaseLists | releaseAll => rfl
  | _ => cases releases

end ScriptHost.Heap
