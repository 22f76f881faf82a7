import ScriptHost.Heap.Basic

/-! The list operations of a heap. A list that is made from values goes through the same steps as
one that a program fills by itself. -/
namespace ScriptHost.Heap

def newList (heap : Heap) (capacity : Nat) : Outcome ListHandle × Heap :=
  match ValueList.ofCapacity heap.allocator capacity with
  | .error e => (.error e, heap)
  | .ok list =>
    let (result, lists) := heap.lists.register list
    (result, { heap with lists })

/-- Like `newList`, for a size that the program computed. -/
def newListChecked (heap : Heap) (capacity : Int64) : Outcome ListHandle × Heap :=
  if capacity.toInt < 0 then (.error (.negativeLength capacity), heap)
  else heap.newList capacity.toInt.toNat

def list (heap : Heap) (h : ListHandle) : Outcome ValueList := heap.lists.get h

def modifyList (heap : Heap) (h : ListHandle) (f : ValueList → Outcome Unit × ValueList) :
    Outcome Unit × Heap :=
  let (result, lists) := heap.lists.modify h f
  (result, { heap with lists })

def fillNext (heap : Heap) (h : ListHandle) (v : Value) : Outcome Unit × Heap :=
  heap.modifyList h (ValueList.fillNext v)

def append (heap : Heap) (h : ListHandle) (v : Value) : Outcome Unit × Heap :=
  heap.modifyList h (ValueList.append v)

def listGet (heap : Heap) (h : ListHandle) (index : Int64) : Outcome Value := do
  (← heap.list h).get index

def listLength (heap : Heap) (h : ListHandle) : Outcome Nat := ValueList.length <$> heap.list h

def listState (heap : Heap) (h : ListHandle) : Outcome ValueList.State :=
  ValueList.state <$> heap.list h

def listRange (heap : Heap) (h : ListHandle) (start stop : Int64) : Outcome (List Value) := do
  (← heap.list h).range start stop

/-- Fills slots one after the other, up to the first failure. -/
def fillAll (heap : Heap) (h : ListHandle) : List Value → Outcome Unit × Heap
  | [] => (.ok (), heap)
  | v :: rest =>
    match heap.fillNext h v with
    | (.error e, heap) => (.error e, heap)
    | (.ok (), heap) => heap.fillAll h rest

def listOfValues (heap : Heap) (values : List Value) : Outcome ListHandle × Heap :=
  match heap.newList values.length with
  | (.error e, heap) => (.error e, heap)
  | (.ok h, heap) =>
    match heap.fillAll h values with
    | (.error e, heap) => (.error e, heap)
    | (.ok (), heap) => (.ok h, heap)

/-- Fills one more slot, unless an earlier one failed. -/
def fillStep (h : ListHandle) (filled : Outcome Unit × Heap) (v : Value) : Outcome Unit × Heap :=
  match filled with
  | (.error e, heap) => (.error e, heap)
  | (.ok (), heap) => heap.fillNext h v

/-- A new list with copies of the values from `start` to `stop`. -/
def listSlice (heap : Heap) (h : ListHandle) (start stop : Int64) : Outcome ListHandle × Heap :=
  match heap.listRange h start stop with
  | .error e => (.error e, heap)
  | .ok values =>
    match heap.newList values.length with
    | (.error e, heap) => (.error e, heap)
    | (.ok out, heap) =>
      match values.foldl (fillStep out) (.ok (), heap) with
      | (.error e, heap) => (.error e, heap)
      | (.ok (), heap) => (.ok out, heap)

variable {heap : Heap}

theorem modifyList_of_unchanged {h : ListHandle} {l : ValueList} (found : heap.list h = .ok l)
    {f : ValueList → Outcome Unit × ValueList} (same : (f l).2 = l) :
    heap.modifyList h f = ((f l).1, heap) := by
  simp only [modifyList, Registry.modify_of_unchanged found same]

theorem modifyList_fst {h : ListHandle} {l : ValueList} (found : heap.list h = .ok l)
    (f : ValueList → Outcome Unit × ValueList) : (heap.modifyList h f).1 = (f l).1 := by
  simp only [modifyList, Registry.modify_of_get found]

theorem newList_of_refused {capacity : Nat} (refused : ¬ heap.allocator.grants capacity) :
    heap.newList capacity = (.error (.capacityExhausted .list), heap) := by
  simp only [newList, ValueList.ofCapacity, refused, if_false, Bool.false_eq_true]

theorem newList_of_isFull (full : heap.lists.isFull) (capacity : Nat) :
    heap.newList capacity = (.error (.capacityExhausted .list), heap) := by
  by_cases granted : heap.allocator.grants capacity
  · simp only [newList, ValueList.ofCapacity, granted, if_true, Registry.register_of_isFull full]
  · exact newList_of_refused granted

theorem newList_of_not_isFull {capacity : Nat} (granted : heap.allocator.grants capacity)
    (room : ¬ heap.lists.isFull) :
    heap.newList capacity = (.ok heap.lists.nextHandle,
      { heap with lists := (heap.lists.register ⟨#[], capacity, capacity⟩).2 }) := by
  simp only [newList, ValueList.ofCapacity, granted, if_true, Registry.register_of_not_isFull room]

theorem newList_of_no_room {capacity : Nat}
    (refused : heap.lists.isFull ∨ ¬ heap.allocator.grants capacity) :
    heap.newList capacity = (.error (.capacityExhausted .list), heap) := by
  rcases refused with full | big
  · exact newList_of_isFull full capacity
  · exact newList_of_refused big

/-- A new list finds no room, or all of its slots wait. -/
theorem newList_cases (heap : Heap) (capacity : Nat) :
    heap.newList capacity = (.error (.capacityExhausted .list), heap) ∨
      ¬ heap.lists.isFull ∧ heap.newList capacity = (.ok heap.lists.nextHandle,
        { heap with lists := (heap.lists.register ⟨#[], capacity, capacity⟩).2 }) := by
  by_cases refused : heap.lists.isFull ∨ ¬ heap.allocator.grants capacity
  · exact .inl (newList_of_no_room refused)
  · obtain ⟨room, unrefused⟩ := not_or.mp refused
    exact .inr ⟨room, newList_of_not_isFull (Decidable.not_not.mp unrefused) room⟩

/-- Filling a list that was just registered never fails while slots wait, and leaves the heap as if the
list had been registered with these values. -/
theorem fillAll_of_register (room : ¬ heap.lists.isFull) (values : List Value) (l : ValueList)
    (waiting : values.length ≤ l.pending) :
    fillAll { heap with lists := (heap.lists.register l).2 } heap.lists.nextHandle values =
      (.ok (), { heap with lists :=
        (heap.lists.register ⟨l.items ++ values, l.length, l.pending - values.length⟩).2 }) := by
  induction values generalizing l with
  | nil => simp [fillAll]
  | cons v rest ih =>
    rw [List.length_cons] at waiting
    have filled := ValueList.fillNext_of_pending (l := l) (by omega) v
    have next := ih { l with items := l.items.push v, pending := l.pending - 1 } (by simp; omega)
    have left : l.pending - 1 - rest.length = l.pending - (rest.length + 1) := by omega
    simp only [fillAll, fillNext, modifyList, Registry.modify_register room, filled, next, left]
    simp

theorem listOfValues_of_not_isFull {values : List Value}
    (granted : heap.allocator.grants values.length) (room : ¬ heap.lists.isFull) :
    heap.listOfValues values = (.ok heap.lists.nextHandle,
      { heap with lists := (heap.lists.register ⟨values.toArray, values.length, 0⟩).2 }) := by
  simp only [listOfValues, newList_of_not_isFull granted room]
  rw [fillAll_of_register room values _ (Nat.le_refl _)]
  simp

theorem listOfValues_of_error {values : List Value} {e : RuntimeError}
    (refused : heap.newList values.length = (.error e, heap)) :
    heap.listOfValues values = (.error e, heap) := by
  simp only [listOfValues, refused]

/-- A list of values finds no room, or none of its slots waits. -/
theorem listOfValues_cases (heap : Heap) (values : List Value) :
    heap.listOfValues values = (.error (.capacityExhausted .list), heap) ∨
      ¬ heap.lists.isFull ∧ heap.listOfValues values = (.ok heap.lists.nextHandle,
        { heap with lists := (heap.lists.register ⟨values.toArray, values.length, 0⟩).2 }) := by
  by_cases refused : heap.lists.isFull ∨ ¬ heap.allocator.grants values.length
  · exact .inl (listOfValues_of_error (newList_of_no_room refused))
  · obtain ⟨room, unrefused⟩ := not_or.mp refused
    exact .inr ⟨room, listOfValues_of_not_isFull (Decidable.not_not.mp unrefused) room⟩

/-! A slice is filled by a loop of its own, which comes to the same as making a list from its values. -/

theorem foldl_fillStep_of_error (h : ListHandle) (e : RuntimeError) (heap : Heap) (values : List Value) :
    values.foldl (fillStep h) (.error e, heap) = (.error e, heap) := by
  induction values with
  | nil => rfl
  | cons v rest ih => exact ih

theorem foldl_fillStep (h : ListHandle) (heap : Heap) (values : List Value) :
    values.foldl (fillStep h) (.ok (), heap) = heap.fillAll h values := by
  induction values generalizing heap with
  | nil => rfl
  | cons v rest ih =>
    rw [List.foldl_cons, fillStep, fillAll]
    cases filled : heap.fillNext h v with
    | mk result next =>
      cases result with
      | error e => exact foldl_fillStep_of_error h e next rest
      | ok _ => exact ih next

theorem listSlice_of_error {h : ListHandle} {start stop : Int64} {e : RuntimeError}
    (refused : heap.listRange h start stop = .error e) : heap.listSlice h start stop = (.error e, heap) := by
  simp only [listSlice, refused]

theorem listSlice_of_range {h : ListHandle} {start stop : Int64} {values : List Value}
    (read : heap.listRange h start stop = .ok values) :
    heap.listSlice h start stop = heap.listOfValues values := by
  simp only [listSlice, read, listOfValues, foldl_fillStep]

end ScriptHost.Heap
