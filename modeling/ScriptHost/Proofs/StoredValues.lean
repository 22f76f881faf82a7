import ScriptHost.Proofs.ListFilling
import ScriptHost.Proofs.ListReading
import ScriptHost.Proofs.ProcessRuns
import ScriptHost.Proofs.ValueEncoding

/-! What a program gets back from its lists. A raw value that goes into a list comes out settled: the
word of a truth value is 0 or 1, the word of nothing is 0, and all else is as it was. A list shows
what it was made of and then what was handed in for it, whatever happens to other lists. -/
namespace ScriptHost

namespace Call

/-- The call releases all objects or drops their heap. -/
def endsObjects : Call → Bool
  | .cleanUp | .cleanUpCounts | .takeHeap => true
  | _ => false

/-- The initial value that a call hands in for the list of these bits. -/
def filled? (h : UInt64) : Call → Option RawValue
  | .fillNext g value => if g = h then some value else none
  | _ => none

def appended? (h : UInt64) : Call → Option RawValue
  | .append g value => if g = h then some value else none
  | _ => none

end Call

namespace Process

open Heap (Filling)

/-- The process answers for the list of these bits with just these values. -/
def Shows (p : Process) (h : UInt64) (values : List RawValue) : Prop :=
  (p.call (.listLength h)).1 = .ok (.length values.length) ∧
    ∀ (index : Int64) (value : RawValue), 0 ≤ index.toInt → values[index.toInt.toNat]? = some value →
      (p.call (.listGet h index)).1 = .ok (.raw value)

/-- What a list accepted, told by the raw values that were handed in for it. -/
structure Told (f : Filling) (initial fills appends : List RawValue) : Prop where
  accepted : f.accepted.map Value.encode = initial ++ (fills ++ appends).map RawValue.settled
  fills : f.fills = initial.length + fills.length
  appends : f.appends = appends.length

/-- The list of these bits stands for the values that were handed in for it. -/
def Keeps (p : Process) (h : UInt64) (capacity : Nat) (initial fills appends : List RawValue) :
    Prop :=
  ∃ f l, p.heap.list (.ofBits h) = .ok l ∧ f.Shapes capacity l ∧ Told f initial fills appends

variable {p : Process} {h : UInt64} {c : Call} {l : ValueList} {f : Filling} {capacity : Nat}
  {initial fills appends : List RawValue} {reply : Reply} {op : Heap.Operation}

theorem ofBits_inj {a b : UInt64} : (Handle.ofBits a : ListHandle) = .ofBits b ↔ a = b := by
  constructor
  · intro same
    have bits := congrArg Handle.toBits same
    rwa [Handle.toBits_ofBits, Handle.toBits_ofBits] at bits
  · rintro rfl
    rfl

theorem releases_of_operation? (kept : c.endsObjects = false) (runs : p.operation? c = some op) :
    op.releases .list = false := by
  cases c with
  | cleanUp | cleanUpCounts => cases kept
  | createString | concatStrings | newList | listSlice => cases runs; rfl
  | fillNext | append =>
    obtain ⟨v, _, rfl⟩ := Option.map_eq_some_iff.mp runs
    rfl
  | input prompt letter =>
    obtain ⟨tag, _, known⟩ := Option.bind_eq_some_iff.mp runs
    obtain ⟨text, _, rfl⟩ := Option.map_eq_some_iff.mp known
    rfl
  | _ => cases runs

/-- Only a call that hands in a value edits a list. -/
theorem edit?_of_operation? (fixed : ∀ g, c.filled? g = none ∧ c.appended? g = none)
    (runs : p.operation? c = some op) : op.edit? = none := by
  cases c with
  | createString | concatStrings | newList | listSlice | cleanUp | cleanUpCounts => cases runs; rfl
  | fillNext g value =>
    have impossible := (fixed g).1
    rw [Call.filled?, if_pos rfl] at impossible
    cases impossible
  | append g value =>
    have impossible := (fixed g).2
    rw [Call.appended?, if_pos rfl] at impossible
    cases impossible
  | input prompt letter =>
    obtain ⟨tag, _, known⟩ := Option.bind_eq_some_iff.mp runs
    obtain ⟨text, _, rfl⟩ := Option.map_eq_some_iff.mp known
    rfl
  | _ => cases runs

theorem heap_call_of_kept (kept : c.endsObjects = false) :
    (p.call c).2.heap = p.heap.afterAny (p.operation? c) := by
  apply heap_call
  rintro rfl
  cases kept

theorem ok_of_storing {value : RawValue} {operation : Heap → Value → Outcome Unit × Heap}
    (ok : (answer (fun _ => .nothing) (p.storing value operation)).1 = .ok reply) :
    ∃ v, value.decode = .ok v ∧ (operation p.heap v).1 = .ok () := by
  cases decoded : value.decode with
  | error e =>
    rw [storing_of_error decoded] at ok
    cases ok
  | ok v =>
    have stored : (p.storing value operation).1 = (operation p.heap v).1 :=
      (storing_of_ok decoded operation).1
    rw [answer, stored] at ok
    cases result : (operation p.heap v).1 with
    | error e =>
      rw [result] at ok
      cases ok
    | ok done => exact ⟨v, rfl, result⟩

theorem Told.fill (told : Told f initial fills []) {value : RawValue} {v : Value}
    (decoded : value.decode = .ok v) :
    Told ⟨f.fills + 1, f.appends, f.accepted ++ [v]⟩ initial (fills ++ [value]) [] := by
  have count := told.fills
  constructor
  · simp [told.accepted, RawValue.encode_of_decode decoded]
  · simp only [List.length_append, List.length_singleton]
    omega
  · exact told.appends

theorem Told.append (told : Told f initial fills appends) {value : RawValue} {v : Value}
    (decoded : value.decode = .ok v) :
    Told ⟨f.fills, f.appends + 1, f.accepted ++ [v]⟩ initial fills (appends ++ [value]) := by
  constructor
  · simp [told.accepted, RawValue.encode_of_decode decoded]
  · exact told.fills
  · simp [told.appends]

/-- A call that hands in no value leaves every list as it is, unless it ends all of them. -/
theorem list_of_call (found : p.heap.list (.ofBits h) = .ok l) (kept : c.endsObjects = false)
    (fixed : ∀ g, c.filled? g = none ∧ c.appended? g = none) :
    (p.call c).2.heap.list (.ofBits h) = .ok l := by
  rw [heap_call_of_kept kept]
  cases runs : p.operation? c with
  | none => exact found
  | some op =>
    have unedited := edit?_of_operation? fixed runs
    apply Heap.list_of_elsewhere found (releases_of_operation? kept runs)
    intro g edit edits
    rw [unedited] at edits
    cases edits

/-- An operation of a call, seen from a list: what it did to the list is on record. -/
theorem shapes_of_call (shapes : f.Shapes capacity l) (found : p.heap.list (.ofBits h) = .ok l)
    (kept : c.endsObjects = false) (runs : p.operation? c = some op) {answer : Heap.Answer}
    (result : (p.heap.perform op).1 = .ok answer) :
    ∃ next, (p.call c).2.heap.list (.ofBits h) = .ok next ∧
      (f.record (.ofBits h) ⟨op, .ok answer⟩).Shapes capacity next := by
  rw [heap_call_of_kept kept, runs, ← result]
  exact Filling.shapes_perform shapes found op (releases_of_operation? kept runs)

theorem Keeps.fillNext {g : UInt64} {value : RawValue}
    (keeps : p.Keeps h capacity initial fills appends)
    (ok : (p.call (.fillNext g value)).1 = .ok reply) :
    (p.call (.fillNext g value)).2.Keeps h capacity initial
      (fills ++ ((Call.fillNext g value).filled? h).toList) appends := by
  obtain ⟨f, l, found, shapes, told⟩ := keeps
  obtain ⟨v, decoded, filled⟩ := ok_of_storing ok
  have runs : p.operation? (.fillNext g value) = some (.fillNext (.ofBits g) v) := by
    rw [operation?, decoded]
    rfl
  have result : (p.heap.perform (.fillNext (.ofBits g) v)).1 = .ok .done := by
    rw [Heap.perform, Heap.answered, filled]
    rfl
  obtain ⟨next, reached, shaped⟩ := shapes_of_call shapes found rfl runs result
  refine ⟨_, next, reached, shaped, ?_⟩
  by_cases here : g = h
  · subst here
    -- The list took a fill, so it waited for one, and has no appends.
    have waiting := shapes.waiting_iff.mpr ((Heap.fillNext_accepted_iff shapes found v).mp filled)
    have none : f.appends = 0 := shapes.appends.resolve_left waiting
    obtain rfl : appends = [] := List.eq_nil_of_length_eq_zero (told.appends.symm.trans none)
    simpa [Filling.record, Call.filled?] using told.fill decoded
  · have other : (Handle.ofBits g : ListHandle) ≠ .ofBits h := mt ofBits_inj.mp here
    simpa [Filling.record, Call.filled?, here, other] using told

theorem Keeps.append {g : UInt64} {value : RawValue}
    (keeps : p.Keeps h capacity initial fills appends)
    (ok : (p.call (.append g value)).1 = .ok reply) :
    (p.call (.append g value)).2.Keeps h capacity initial fills
      (appends ++ ((Call.append g value).appended? h).toList) := by
  obtain ⟨f, l, found, shapes, told⟩ := keeps
  obtain ⟨v, decoded, appended⟩ := ok_of_storing ok
  have runs : p.operation? (.append g value) = some (.append (.ofBits g) v) := by
    rw [operation?, decoded]
    rfl
  have result : (p.heap.perform (.append (.ofBits g) v)).1 = .ok .done := by
    rw [Heap.perform, Heap.answered, appended]
    rfl
  obtain ⟨next, reached, shaped⟩ := shapes_of_call shapes found rfl runs result
  refine ⟨_, next, reached, shaped, ?_⟩
  by_cases here : g = h
  · subst here
    simpa [Filling.record, Call.appended?] using told.append decoded
  · have other : (Handle.ofBits g : ListHandle) ≠ .ofBits h := mt ofBits_inj.mp here
    simpa [Filling.record, Call.appended?, here, other] using told

theorem Keeps.call (keeps : p.Keeps h capacity initial fills appends) (kept : c.endsObjects = false)
    (ok : (p.call c).1 = .ok reply) :
    (p.call c).2.Keeps h capacity initial (fills ++ (c.filled? h).toList)
      (appends ++ (c.appended? h).toList) := by
  by_cases fixed : ∀ g, c.filled? g = none ∧ c.appended? g = none
  · obtain ⟨f, l, found, shapes, told⟩ := keeps
    rw [(fixed h).1, (fixed h).2, Option.toList_none, List.append_nil, List.append_nil]
    exact ⟨f, l, list_of_call found kept fixed, shapes, told⟩
  · cases c with
    | fillNext g value =>
      have next := keeps.fillNext ok
      rwa [← List.append_nil appends] at next
    | append g value =>
      have next := keeps.append ok
      rwa [← List.append_nil fills] at next
    | _ => exact absurd (fun g => ⟨rfl, rfl⟩) fixed

theorem filterMap_cons_toList {α β : Type} (g : α → Option β) (a : α) (rest : List α) :
    (a :: rest).filterMap g = (g a).toList ++ rest.filterMap g := by
  cases found : g a <;> simp [found]

theorem Keeps.run (keeps : p.Keeps h capacity initial fills appends) {later : List Call}
    (kept : ∀ c ∈ later, c.endsObjects = false) (ran : (Execution.run p later).failure = none) :
    (Execution.run p later).final.Keeps h capacity initial
      (fills ++ later.filterMap (Call.filled? h)) (appends ++ later.filterMap (Call.appended? h)) := by
  induction later generalizing p fills appends with
  | nil =>
    rw [List.filterMap_nil, List.filterMap_nil, List.append_nil, List.append_nil]
    exact keeps
  | cons c rest ih =>
    obtain ⟨reply, next, called, behind, whole⟩ := Execution.run_cons_of_ok ran
    have ok : (p.call c).1 = .ok reply := by rw [called]
    have step := keeps.call (kept c List.mem_cons_self) ok
    rw [called] at step
    have later := ih step (fun d member => kept d (List.mem_cons_of_mem _ member)) behind
    rw [whole, filterMap_cons_toList, filterMap_cons_toList, ← List.append_assoc, ← List.append_assoc]
    exact later

theorem Keeps.fills_le (keeps : p.Keeps h capacity initial fills appends) :
    initial.length + fills.length ≤ capacity := by
  obtain ⟨f, l, _, shapes, told⟩ := keeps
  have pending := shapes.pending
  have count := told.fills
  omega

theorem call_listLength (p : Process) (h : UInt64) :
    (p.call (.listLength h)).1 = (p.heap.listLength (.ofBits h)).map .length := rfl

theorem call_listGet (p : Process) (h : UInt64) (index : Int64) :
    (p.call (.listGet h index)).1 = (p.heap.listGet (.ofBits h) index).map (.raw ·.encode) := rfl

/-- A list whose slots are filled shows its values. -/
theorem Keeps.shows (keeps : p.Keeps h capacity initial fills appends)
    (filled : initial.length + fills.length = capacity) :
    p.Shows h (initial ++ (fills ++ appends).map RawValue.settled) := by
  obtain ⟨f, l, found, shapes, told⟩ := keeps
  have items : l.items.toList.map Value.encode =
      initial ++ (fills ++ appends).map RawValue.settled := by
    rw [shapes.items, told.accepted]
  have ready : l.pending = 0 := by
    have pending := shapes.pending
    have count := told.fills
    omega
  have size : l.items.size = l.length := shapes.wellFormed.size_of_ready ready
  rw [← items]
  constructor
  · rw [call_listLength, Heap.listLength_of_list found, List.length_map, Array.length_toList, size]
    rfl
  · intro index value nonnegative shown
    rw [List.getElem?_map, Option.map_eq_some_iff] at shown
    obtain ⟨v, held, rfl⟩ := shown
    have read : l.get index = .ok v :=
      ValueList.get_eq_ok_iff.mpr ⟨ready, nonnegative, by simpa using held⟩
    rw [call_listGet, Heap.listGet_of_list found, read]
    rfl

theorem handle_of_answer {kind : ObjectKind} {outcome : Outcome (Handle kind) × Process}
    (made : (answer (.handle ·.toBits) outcome).1 = .ok (.handle h)) :
    outcome.1 = .ok (.ofBits h) := by
  obtain ⟨result, next⟩ := outcome
  cases result with
  | error e => cases made
  | ok g =>
    cases made
    rw [Handle.ofBits_toBits]

/-- A new list waits for its initial values, and none were handed in. -/
theorem keeps_of_newList {length : Int64} (made : (p.call (.newList length)).1 = .ok (.handle h)) :
    (p.call (.newList length)).2.Keeps h length.toInt.toNat [] [] [] := by
  have created : (p.heap.newListChecked length).1 = .ok (.ofBits h) :=
    (p.withHeap_eq_operation (·.newListChecked length) listEvents).1.symm.trans (handle_of_answer made)
  have changed : (p.call (.newList length)).2.heap = (p.heap.newListChecked length).2 :=
    heap_call_of_kept rfl
  by_cases negative : length.toInt < 0
  · rw [Heap.newListChecked, if_pos negative] at created
    cases created
  · rw [Heap.newListChecked, if_neg negative] at created changed
    refine ⟨.start, _, ?_, Filling.shapes_start _, ⟨rfl, rfl, rfl⟩⟩
    rw [changed]
    exact Heap.list_of_newList (Prod.ext created rfl)

theorem list_of_listOfValues {heap : Heap} {g : ListHandle} {values : List Value}
    (made : (heap.listOfValues values).1 = .ok g) :
    (heap.listOfValues values).2.list g = .ok ⟨values.toArray, values.length, 0⟩ := by
  rcases heap.listOfValues_cases values with refused | ⟨room, registered⟩
  · rw [refused] at made
    cases made
  · rw [registered] at made ⊢
    cases made
    exact Registry.get_nextHandle room _

/-- A slice shows what the source showed in the range, and waits for nothing. -/
theorem keeps_of_listSlice {g : UInt64} {start stop : Int64}
    (made : (p.call (.listSlice g start stop)).1 = .ok (.handle h)) (sound : p.Sound) :
    ∃ sliced : List RawValue,
      (p.call (.listSlice g start stop)).2.Keeps h sliced.length sliced [] [] ∧
      sliced.length = (stop.toInt + 1 - start.toInt).toNat ∧ start.toInt ≤ stop.toInt ∧
      ∀ index : Int64, start.toInt ≤ index.toInt → index.toInt ≤ stop.toInt →
        ∃ value, sliced[(index.toInt - start.toInt).toNat]? = some value ∧
          (p.call (.listGet g index)).1 = .ok (.raw value) := by
  obtain ⟨limit, sound⟩ := sound
  have created : (p.heap.listSlice (.ofBits g) start stop).1 = .ok (.ofBits h) :=
    (p.withHeap_eq_operation (·.listSlice (.ofBits g) start stop) listEvents).1.symm.trans
      (handle_of_answer made)
  have changed : (p.call (.listSlice g start stop)).2.heap =
      (p.heap.listSlice (.ofBits g) start stop).2 := heap_call_of_kept rfl
  cases read : p.heap.listRange (.ofBits g) start stop with
  | error e =>
    rw [Heap.listSlice_of_error read] at created
    cases created
  | ok values =>
    obtain ⟨l, found, ranged⟩ := Heap.exists_list_of_listRange read
    obtain ⟨ready, inside, _⟩ := ValueList.range_eq_ok_iff.mp ranged
    have wf := sound.list found
    have length := ValueList.length_of_range wf ranged
    rw [Heap.listSlice_of_range read] at created changed
    refine ⟨values.map Value.encode, ?_, ?_, inside.2.1, ?_⟩
    · refine ⟨⟨values.length, 0, values⟩, ⟨values.toArray, values.length, 0⟩, ?_, ?_, ?_⟩
      · rw [changed]
        exact list_of_listOfValues created
      · constructor <;> simp
      · constructor <;> simp
    · rw [List.length_map, length]
      omega
    · intro index low high
      obtain ⟨v, held, got⟩ := ValueList.get_of_range wf ranged low high
      refine ⟨v.encode, by rw [List.getElem?_map, held]; rfl, ?_⟩
      rw [call_listGet, Heap.listGet_of_list found, got]
      rfl

end Process

/-- A program that does not fail makes a list with a call, and ends no objects from then on. A list
made with slots, all of them filled, shows the initial values handed in for it and then those
appended to it, in order. A slice shows what its source showed in the range when it was made, and
then the values appended to the slice. Values come back settled, and handles count by their bits. -/
theorem lists_show_what_was_handed_in (platform : Platform) (environment : Environment)
    (kindOf : String → PathKind) (input : Utf8.Bytes) (first later : List Call) (creating : Call)
    (h : UInt64) :
    let start := Process.start platform environment kindOf input
    let whole := Execution.run start (first ++ creating :: later)
    whole.failure = none → whole.replies[first.length]? = some (.handle h) →
    (∀ c ∈ later, c.endsObjects = false) →
    let before := (Execution.run start first).final
    let fills := later.filterMap (Call.filled? h)
    let appends := later.filterMap (Call.appended? h)
    (∀ length, creating = .newList length → fills.length = length.toInt.toNat →
      whole.final.Shows h ((fills ++ appends).map RawValue.settled)) ∧
    (∀ g start stop, creating = .listSlice g start stop →
      ∃ sliced : List RawValue, sliced.length = (stop.toInt + 1 - start.toInt).toNat ∧
        start.toInt ≤ stop.toInt ∧
        (∀ index : Int64, start.toInt ≤ index.toInt → index.toInt ≤ stop.toInt →
          ∃ value, sliced[(index.toInt - start.toInt).toNat]? = some value ∧
            (before.call (.listGet g index)).1 = .ok (.raw value)) ∧
        whole.final.Shows h (sliced ++ appends.map RawValue.settled)) := by
  intro start whole ran issued kept before fills appends
  obtain ⟨reply, next, begun, called, succeeded, final, replied⟩ := Execution.run_split_at ran
  obtain rfl : reply = .handle h := Option.some.inj (replied.symm.trans issued)
  have sound : before.Sound := Execution.sound_final (Process.sound_of_not_live rfl) begun
  have made : (before.call creating).1 = .ok (.handle h) := congrArg Prod.fst called
  change whole.final = _ at final
  rw [final]
  constructor
  · rintro length rfl filled
    have created := Process.keeps_of_newList made
    rw [called] at created
    have keeps : (Execution.run next later).final.Keeps h length.toInt.toNat [] fills appends :=
      created.run kept succeeded
    exact keeps.shows ((Nat.zero_add _).trans filled)
  · rintro g low high rfl
    obtain ⟨sliced, created, length, order, shown⟩ := Process.keeps_of_listSlice made sound
    rw [called] at created
    have keeps : (Execution.run next later).final.Keeps h sliced.length sliced fills appends :=
      created.run kept succeeded
    have none : fills = [] := by
      apply List.eq_nil_of_length_eq_zero
      have bound := keeps.fills_le
      omega
    rw [none] at keeps
    exact ⟨sliced, length, order, shown, keeps.shows (Nat.add_zero _)⟩

/-- Two lists are filled in turns, the second with a truth value and its own handle. -/
theorem lists_show_what_was_handed_in_once :
    let first : List Call := [.newList 1]
    let later : List Call := [.fillNext 1 (.ofTag .bool 42), .fillNext 0 (.ofTag .int 7),
      .fillNext 1 (.ofTag .list 1), .listSlice 0 0 0, .append 1 (.ofTag .none 9), .stats]
    let whole := Execution.run (.start .plain ⟨none, none, none⟩ (fun _ => .regular) [])
      (first ++ .newList 2 :: later)
    whole.failure = none ∧ whole.replies[1]? = some (.handle 1) ∧
      whole.final.Shows 1 [.ofTag .bool 1, .ofTag .list 1, .ofTag .none 0] := by
  intro first later whole
  have ran : whole.failure = none := by decide +kernel
  have issued : whole.replies[1]? = some (.handle 1) := by decide +kernel
  have kept : ∀ c ∈ later, c.endsObjects = false := by simp [later, Call.endsObjects]
  have filled : (later.filterMap (Call.filled? 1)).length = (2 : Int64).toInt.toNat := by decide +kernel
  have values : (later.filterMap (Call.filled? 1) ++ later.filterMap (Call.appended? 1)).map
      RawValue.settled = [.ofTag .bool 1, .ofTag .list 1, .ofTag .none 0] := by decide +kernel
  obtain ⟨made, _⟩ := lists_show_what_was_handed_in .plain ⟨none, none, none⟩ (fun _ => .regular) []
    first later (.newList 2) 1 ran issued kept
  refine ⟨ran, issued, ?_⟩
  rw [← values]
  exact made 2 rfl filled

end ScriptHost
