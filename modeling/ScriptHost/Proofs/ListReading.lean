import ScriptHost.Proofs.HeapInvariant

/-! What the reads of a list answer for every index and every pair of ends. As long as initial values are
missing, all of them fail alike. From then on one list of values answers them all: an index is good if it
is that of a value, and of a range the first fault counts. -/
namespace ScriptHost

/-- The index of one of so many values; no negative index is one. -/
def InBounds (length : Nat) (index : Int64) : Prop := 0 ≤ index.toInt ∧ index.toInt < length

/-- What is wrong with a range. A fault of the start hides any other, and a fault of the end hides a
wrong order. -/
inductive RangeFault (length : Nat) (start stop : Int64) : RuntimeError → Prop where
  | start (outside : ¬ InBounds length start) :
      RangeFault length start stop (.sliceStartOutOfBounds start length)
  | stop (begins : InBounds length start) (outside : ¬ InBounds length stop) :
      RangeFault length start stop (.sliceEndOutOfBounds stop length)
  | reversed (begins : InBounds length start) (ends : InBounds length stop)
      (order : stop.toInt < start.toInt) : RangeFault length start stop (.sliceReversed start stop)

namespace ValueList

variable {l : ValueList} {index start stop : Int64} {low high : Nat} {e : RuntimeError}

theorem checkReady_of_pending (waiting : l.pending ≠ 0) :
    l.checkReady = .error (.initIncomplete l.length l.pending) := if_neg waiting

theorem checkReady_of_ready (ready : l.pending = 0) : l.checkReady = .ok () := if_pos ready

theorem get_of_pending (waiting : l.pending ≠ 0) (index : Int64) :
    l.get index = .error (.initIncomplete l.length l.pending) := by
  rw [get, checkReady_of_pending waiting]
  rfl

theorem range_of_pending (waiting : l.pending ≠ 0) (start stop : Int64) :
    l.range start stop = .error (.initIncomplete l.length l.pending) := by
  rw [range, checkReady_of_pending waiting]
  rfl

theorem values_of_pending (waiting : l.pending ≠ 0) :
    l.values = .error (.initIncomplete l.length l.pending) := by
  rw [values, checkReady_of_pending waiting]
  rfl

theorem values_of_ready (ready : l.pending = 0) : l.values = .ok l.items.toList := by
  rw [values, checkReady_of_ready ready]
  rfl

theorem WellFormed.size_of_ready (wf : l.WellFormed) (ready : l.pending = 0) :
    l.items.size = l.length := by
  rw [WellFormed, ready] at wf
  exact wf

theorem position?_eq_some_iff :
    l.position? index = some low ↔ InBounds l.length index ∧ index.toInt.toNat = low := by
  rw [position?, Option.ite_none_right_eq_some, Option.some.injEq]
  rfl

/-- The ends of a range that passed their checks are places of the values that a ready list holds. -/
theorem WellFormed.position_lt (wf : l.WellFormed) (ready : l.pending = 0)
    (found : l.position? index = some low) : low < l.items.size := by
  obtain ⟨⟨nonnegative, bound⟩, rfl⟩ := position?_eq_some_iff.mp found
  rw [wf.size_of_ready ready]
  omega

theorem get_of_outside (wf : l.WellFormed) (ready : l.pending = 0)
    (outside : ¬ InBounds l.length index) :
    l.get index = .error (.indexOutOfBounds index l.length) := by
  simp only [get, checkReady_of_ready ready, bind, Except.bind]
  by_cases negative : index.toInt < 0
  · rw [if_pos negative]
  · have above : l.items.size ≤ index.toInt.toNat := by
      rw [wf.size_of_ready ready]
      unfold InBounds at outside
      omega
    rw [if_neg negative, Array.getElem?_eq_none above]

/-- A good index reaches the value at its place. -/
theorem get_of_inside (wf : l.WellFormed) (ready : l.pending = 0) (inside : InBounds l.length index) :
    ∃ v, l.items.toList[index.toInt.toNat]? = some v ∧ l.get index = .ok v := by
  obtain ⟨nonnegative, bound⟩ := inside
  have within : index.toInt.toNat < l.items.size := by
    rw [wf.size_of_ready ready]
    omega
  have found : l.items[index.toInt.toNat]? = some l.items[index.toInt.toNat] :=
    Array.getElem?_eq_getElem within
  exact ⟨_, by rw [Array.getElem?_toList, found], get_eq_ok_iff.mpr ⟨ready, nonnegative, found⟩⟩

theorem isOk_get_iff (wf : l.WellFormed) (ready : l.pending = 0) :
    (∃ v, l.get index = .ok v) ↔ InBounds l.length index := by
  constructor
  · rintro ⟨v, read⟩
    obtain ⟨_, nonnegative, held⟩ := get_eq_ok_iff.mp read
    obtain ⟨bound, _⟩ := Array.getElem?_eq_some_iff.mp held
    rw [wf.size_of_ready ready] at bound
    exact ⟨nonnegative, by omega⟩
  · intro inside
    obtain ⟨v, _, read⟩ := get_of_inside wf ready inside
    exact ⟨v, read⟩

theorem range_of_fault (ready : l.pending = 0) (fault : RangeFault l.length start stop e) :
    l.range start stop = .error e := by
  simp only [range, checkReady_of_ready ready]
  cases fault with
  | start outside => rw [position?_of_outside outside]; rfl
  | stop begins outside => rw [position?_of_inside begins, position?_of_outside outside]; rfl
  | reversed begins ends order =>
    have reversed : stop.toInt.toNat < start.toInt.toNat := by
      obtain ⟨nonnegative, _⟩ := ends
      omega
    rw [position?_of_inside begins, position?_of_inside ends]
    exact if_pos reversed

/-- Ends that are good and in order, or a fault. -/
theorem range_cases (length : Nat) (start stop : Int64) :
    (InBounds length start ∧ InBounds length stop ∧ start.toInt ≤ stop.toInt) ∨
      ∃ e, RangeFault length start stop e := by
  by_cases begins : InBounds length start
  · by_cases ends : InBounds length stop
    · by_cases order : start.toInt ≤ stop.toInt
      · exact .inl ⟨begins, ends, order⟩
      · exact .inr ⟨_, .reversed begins ends (Int.not_le.mp order)⟩
    · exact .inr ⟨_, .stop begins ends⟩
  · exact .inr ⟨_, .start begins⟩

theorem isOk_range_iff (ready : l.pending = 0) :
    (∃ part, l.range start stop = .ok part) ↔
      InBounds l.length start ∧ InBounds l.length stop ∧ start.toInt ≤ stop.toInt := by
  constructor
  · rintro ⟨part, read⟩
    obtain ⟨_, ⟨nonnegative, order, bound⟩, _⟩ := range_eq_ok_iff.mp read
    exact ⟨⟨nonnegative, Int.lt_of_le_of_lt order bound⟩, ⟨Int.le_trans nonnegative order, bound⟩, order⟩
  · rintro ⟨⟨nonnegative, _⟩, ⟨_, bound⟩, order⟩
    exact ⟨_, range_eq_ok_iff.mpr ⟨ready, ⟨nonnegative, order, bound⟩, rfl⟩⟩

theorem range_eq_error_iff (ready : l.pending = 0) :
    l.range start stop = .error e ↔ RangeFault l.length start stop e := by
  constructor
  · intro failed
    rcases range_cases l.length start stop with good | ⟨cause, fault⟩
    · obtain ⟨part, read⟩ := (isOk_range_iff ready).mpr good
      rw [read] at failed
      cases failed
    · rw [range_of_fault ready fault, Except.error.injEq] at failed
      exact failed ▸ fault
  · exact range_of_fault ready

/-- The values of a range, counted from its start, are those at the indexes of the range. -/
theorem range_shows (wf : l.WellFormed) {part : List Value} (read : l.range start stop = .ok part) :
    (part.length : Int) = stop.toInt - start.toInt + 1 ∧
      ∀ (k : Nat) (index : Int64), index.toInt = start.toInt + k → index.toInt ≤ stop.toInt →
        ∃ v, part[k]? = some v ∧ l.get index = .ok v := by
  obtain ⟨_, ⟨nonnegative, order, _⟩, _⟩ := range_eq_ok_iff.mp read
  constructor
  · rw [length_of_range wf read]
    omega
  · intro k index place high
    obtain ⟨v, held, got⟩ : ∃ v, part[(index.toInt - start.toInt).toNat]? = some v ∧
        l.get index = .ok v := get_of_range wf read (by omega) high
    have offset : (index.toInt - start.toInt).toNat = k := by omega
    exact ⟨v, offset ▸ held, got⟩

end ValueList

namespace Heap

variable {limit : Option Nat} {heap : Heap} {h : ListHandle} {l : ValueList}

theorem listState_eq_constructing_iff (found : heap.list h = .ok l) :
    heap.listState h = .ok .constructing ↔ l.pending ≠ 0 := by
  have state : heap.listState h = .ok l.state := by
    rw [listState, found]
    rfl
  rw [state, ValueList.state]
  by_cases ready : l.pending = 0 <;> simp [ready]

theorem listLength_of_list (found : heap.list h = .ok l) : heap.listLength h = .ok l.length := by
  rw [listLength, found]
  rfl

theorem listGet_of_list (found : heap.list h = .ok l) (index : Int64) :
    heap.listGet h index = l.get index := by
  rw [listGet, found]
  rfl

theorem listRange_of_list (found : heap.list h = .ok l) (start stop : Int64) :
    heap.listRange h start stop = l.range start stop := by
  rw [listRange, found]
  rfl

/-- Every list of every heap that operations lead to. While slots wait, no read gets as far as its
bounds. Once the list is ready its values are as many as its length, an index reads the value at its
place, and a range the values from its start to its end; anything else is out of bounds, with the index or
the first fault of the range, as it was given, and the length. What passes the checks of a range is a
place of the values. -/
theorem reads_of_reachable_list (allocator : Allocator) (limit : Option Nat) (ops : List Operation)
    (h : ListHandle) (l : ValueList) :
    let now := (empty allocator limit).after ops
    now.list h = .ok l →
    (now.listState h = .ok .constructing →
      l.values = .error (.initIncomplete l.length l.pending) ∧
      (∀ index, now.listGet h index = .error (.initIncomplete l.length l.pending)) ∧
      ∀ start stop, now.listRange h start stop = .error (.initIncomplete l.length l.pending)) ∧
    (now.listState h = .ok .ready →
      (∃ values, l.values = .ok values ∧ values.length = l.length ∧
        ∀ (i : Nat) (index : Int64), index.toInt = i → i < l.length →
          ∃ v, values[i]? = some v ∧ now.listGet h index = .ok v) ∧
      (∀ index, (∃ v, now.listGet h index = .ok v) ↔ InBounds l.length index) ∧
      (∀ index, ¬ InBounds l.length index →
        now.listGet h index = .error (.indexOutOfBounds index l.length)) ∧
      (∀ start stop, (∃ part, now.listRange h start stop = .ok part) ↔
        InBounds l.length start ∧ InBounds l.length stop ∧ start.toInt ≤ stop.toInt) ∧
      (∀ start stop e, now.listRange h start stop = .error e ↔ RangeFault l.length start stop e) ∧
      (∀ start stop part, now.listRange h start stop = .ok part →
        (part.length : Int) = stop.toInt - start.toInt + 1 ∧
        ∀ (k : Nat) (index : Int64), index.toInt = start.toInt + k → index.toInt ≤ stop.toInt →
          ∃ v, part[k]? = some v ∧ now.listGet h index = .ok v) ∧
      ∀ start stop low high, l.position? start = some low → l.position? stop = some high →
        low < l.items.size ∧ high < l.items.size) := by
  intro now found
  have wf : l.WellFormed := ((sound_empty allocator limit).after ops).list found
  constructor
  · intro constructing
    have waiting := (listState_eq_constructing_iff found).mp constructing
    refine ⟨ValueList.values_of_pending waiting, fun index => ?_, fun start stop => ?_⟩
    · rw [listGet_of_list found, ValueList.get_of_pending waiting]
    · rw [listRange_of_list found, ValueList.range_of_pending waiting]
  · intro isReady
    have ready := (listState_eq_ready_iff found).mp isReady
    simp only [listGet_of_list found, listRange_of_list found]
    refine ⟨⟨l.items.toList, ValueList.values_of_ready ready, wf.size_of_ready ready, ?_⟩,
      fun index => ValueList.isOk_get_iff wf ready,
      fun index outside => ValueList.get_of_outside wf ready outside,
      fun start stop => ValueList.isOk_range_iff ready,
      fun start stop e => ValueList.range_eq_error_iff ready,
      fun start stop part read => ValueList.range_shows wf read,
      fun start stop low high first last => ⟨wf.position_lt ready first, wf.position_lt ready last⟩⟩
    intro i index place bound
    have inside : InBounds l.length index := ⟨by omega, by omega⟩
    obtain ⟨v, held, read⟩ := ValueList.get_of_inside wf ready inside
    have same : index.toInt.toNat = i := by omega
    exact ⟨v, same ▸ held, read⟩

/-- A list of three values, read with the least index of all and with an end that counts from the back;
and a list that waits for its values, which is not even asked for its bounds. -/
theorem reads_of_reachable_list_once :
    let first : ListHandle := ⟨0, 0⟩
    let second : ListHandle := ⟨1, 0⟩
    let ops : List Operation := [.listOfValues [.int 7, .bool true], .append first .none, .newList 1]
    let now := (empty .addressable none).after ops
    now.list first = .ok ⟨#[.int 7, .bool true, .none], 3, 0⟩ ∧
      now.listState first = .ok .ready ∧ ¬ InBounds 3 Int64.minValue ∧
      now.listGet first Int64.minValue = .error (.indexOutOfBounds Int64.minValue 3) ∧
      RangeFault 3 2 (-1) (.sliceEndOutOfBounds (-1) 3) ∧
      now.listRange first 2 (-1) = .error (.sliceEndOutOfBounds (-1) 3) ∧
      now.list second = .ok ⟨#[], 1, 1⟩ ∧ now.listState second = .ok .constructing ∧
      now.listGet second 9 = .error (.initIncomplete 1 1) := by
  intro first second ops now
  have found : now.list first = .ok ⟨#[.int 7, .bool true, .none], 3, 0⟩ := rfl
  have ready : now.listState first = .ok .ready := (listState_eq_ready_iff found).mpr rfl
  have outside : ¬ InBounds 3 Int64.minValue := fun inside => absurd inside.1 (by decide)
  have fault : RangeFault 3 2 (-1) (.sliceEndOutOfBounds (-1) 3) :=
    .stop ⟨by decide, by decide⟩ fun inside => absurd inside.1 (by decide)
  have waiting : now.list second = .ok ⟨#[], 1, 1⟩ := rfl
  have constructing : now.listState second = .ok .constructing :=
    (listState_eq_constructing_iff waiting).mpr (by decide)
  obtain ⟨-, reads⟩ := reads_of_reachable_list .addressable none ops first _ found
  obtain ⟨-, -, outOfBounds, -, faults, -⟩ := reads ready
  obtain ⟨incomplete, -⟩ := reads_of_reachable_list .addressable none ops second _ waiting
  have least := outOfBounds Int64.minValue outside
  have back := (faults 2 (-1) _).mpr fault
  have early := (incomplete constructing).2.1 9
  exact ⟨found, ready, outside, least, fault, back, waiting, constructing, early⟩

end Heap
end ScriptHost
