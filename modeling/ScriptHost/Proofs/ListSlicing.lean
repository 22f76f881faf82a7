import ScriptHost.Proofs.ListReading

/-! Slices. A slice is a list of its own, made of the values of a range like any list that is made of
values: once it is there, neither of the two lists shows what happens to the other. The indexes of a slice
count from the start of its range, so a slice of a slice is one of the first list. -/
namespace ScriptHost

/-- An index that counts up from a good one, and reaches no further than another good one, does not wrap
around. -/
theorem toInt_add_of_le {start k : Int64} (stop : Int64) (nonnegative : 0 ≤ start.toInt)
    (up : 0 ≤ k.toInt) (within : start.toInt + k.toInt ≤ stop.toInt) :
    (start + k).toInt = start.toInt + k.toInt := by
  have most := Int64.toInt_lt stop
  rw [Int64.toInt_add]
  exact Int.bmod_eq_of_le (by omega) (by omega)

namespace ValueList

/-- The list that holds these values and waits for no others. -/
def holding (values : List Value) : ValueList := ⟨values.toArray, values.length, 0⟩

/-- Ends within a range, counted from its start. -/
structure Within (start stop low high : Int64) : Prop where
  nonnegative : 0 ≤ low.toInt
  order : low.toInt ≤ high.toInt
  inside : high.toInt ≤ stop.toInt - start.toInt

variable {l : ValueList} {part : List Value} {start stop low high : Int64}

theorem isOk_range_holding_iff (wf : l.WellFormed) (read : l.range start stop = .ok part) :
    (∃ inner, (holding part).range low high = .ok inner) ↔ Within start stop low high := by
  have count : ((holding part).length : Int) = stop.toInt - start.toInt + 1 := (range_shows wf read).1
  rw [isOk_range_iff rfl, InBounds, InBounds]
  constructor
  · rintro ⟨⟨nonnegative, _⟩, ⟨_, bound⟩, order⟩
    exact ⟨nonnegative, order, by omega⟩
  · rintro ⟨nonnegative, order, inside⟩
    exact ⟨⟨nonnegative, by omega⟩, ⟨by omega, by omega⟩, order⟩

/-- The ranges of a range that an allocator grants. -/
theorem exists_granted_range_iff (allocator : Allocator) (wf : l.WellFormed)
    (read : l.range start stop = .ok part) :
    (∃ inner, (holding part).range low high = .ok inner ∧ allocator.grants inner.length) ↔
      Within start stop low high ∧ allocator.grants (high.toInt - low.toInt + 1).toNat := by
  have length {inner : List Value} (ranged : (holding part).range low high = .ok inner) :
      (high.toInt - low.toInt + 1).toNat = inner.length := by
    have whole : (holding part).WellFormed := Nat.add_zero _
    have count := (range_shows whole ranged).1
    omega
  constructor
  · rintro ⟨inner, ranged, granted⟩
    exact ⟨(isOk_range_holding_iff wf read).mp ⟨inner, ranged⟩, length ranged ▸ granted⟩
  · rintro ⟨within, granted⟩
    obtain ⟨inner, ranged⟩ := (isOk_range_holding_iff wf read).mpr within
    exact ⟨inner, ranged, length ranged ▸ granted⟩

/-- A range of the values of a range is a range of the whole list. -/
theorem range_holding (wf : l.WellFormed) (read : l.range start stop = .ok part)
    (within : Within start stop low high) :
    (holding part).range low high = l.range (start + low) (start + high) := by
  obtain ⟨nonnegative, order, inside⟩ := within
  obtain ⟨ready, ⟨begins, _, ends⟩, shown⟩ := range_eq_ok_iff.mp read
  have count : ((holding part).length : Int) = stop.toInt - start.toInt + 1 := (range_shows wf read).1
  have first : (start + low).toInt = start.toInt + low.toInt :=
    toInt_add_of_le stop begins nonnegative (by omega)
  have last : (start + high).toInt = start.toInt + high.toInt :=
    toInt_add_of_le stop begins (by omega) (by omega)
  have inner : (holding part).range low high =
      .ok (part.toArray.extract low.toInt.toNat (high.toInt.toNat + 1)).toList :=
    range_eq_ok_iff.mpr ⟨rfl, ⟨nonnegative, order, by omega⟩, rfl⟩
  have outer : l.range (start + low) (start + high) =
      .ok (l.items.extract (start + low).toInt.toNat ((start + high).toInt.toNat + 1)).toList :=
    range_eq_ok_iff.mpr ⟨ready, by omega, rfl⟩
  have front : (start + low).toInt.toNat = start.toInt.toNat + low.toInt.toNat := by omega
  have back : (start + high).toInt.toNat + 1 =
      min (start.toInt.toNat + (high.toInt.toNat + 1)) (stop.toInt.toNat + 1) := by omega
  rw [inner, outer, front, back, shown, Array.toArray_toList, Array.extract_extract]

/-- The element of a range at an index is that of the list at the index counted up from the start. -/
theorem get_holding (wf : l.WellFormed) (read : l.range start stop = .ok part) {k : Int64}
    (nonnegative : 0 ≤ k.toInt) (inside : k.toInt ≤ stop.toInt - start.toInt) :
    ∃ v, (holding part).get k = .ok v ∧ l.get (start + k) = .ok v := by
  obtain ⟨_, ⟨begins, _, _⟩, _⟩ := range_eq_ok_iff.mp read
  have place : (start + k).toInt = start.toInt + k.toInt :=
    toInt_add_of_le stop begins nonnegative (by omega)
  obtain ⟨v, held, got⟩ := (range_shows wf read).2 k.toInt.toNat (start + k) (by omega) (by omega)
  have found : (holding part).items[k.toInt.toNat]? = some v := by
    rw [holding, List.getElem?_toArray]
    exact held
  exact ⟨v, get_eq_ok_iff.mpr ⟨rfl, nonnegative, found⟩, got⟩

end ValueList

namespace Heap

/-- The heap holds one list more, under a handle that reached nothing before, and is the same otherwise. -/
structure Adds (heap : Heap) (made : ListHandle) (l : ValueList) (next : Heap) : Prop where
  effect : next = { heap with lists := { heap.lists with
    entries := heap.lists.entries.push l, allocated := heap.lists.allocated + 1 } }
  fresh : ¬ heap.lists.Resolves made
  found : next.list made = .ok l
  kept : ∀ g m, heap.list g = .ok m → next.list g = .ok m

/-- The values are put into a list one after the other, and each of them finds a slot that waits. -/
def FillsInTurn (heap : Heap) (h : ListHandle) (values : List Value) : Prop :=
  ∀ front v rest, values = front ++ v :: rest →
    ∃ middle, heap.fillAll h front = (.ok (), middle) ∧ (middle.fillNext h v).1 = .ok ()

/-- Whatever is done later, short of a release of the lists, the calls on this list are answered and
leave the list as they would without all the rest. -/
def Undisturbed (heap : Heap) (h : ListHandle) : Prop :=
  ∀ later : List Operation, (∀ op ∈ later, op.releases .list = false) →
    (heap.events later).filter (·.operation.isOn h) = heap.events (later.filter (·.isOn h)) ∧
    (heap.after later).list h = (heap.after (later.filter (·.isOn h))).list h

variable {heap next : Heap} {h made : ListHandle} {l : ValueList} {values part : List Value}
  {start stop low high : Int64}

theorem adds_register (room : ¬ heap.lists.isFull) (l : ValueList) :
    heap.Adds heap.lists.nextHandle l { heap with lists := (heap.lists.register l).2 } where
  effect := by rw [Registry.register_of_not_isFull room]
  fresh := Registry.not_resolves_nextHandle room
  found := Registry.get_nextHandle room l
  kept _ _ found := Registry.get_register_of_get found l

theorem Adds.ne {copy : ValueList} (adds : heap.Adds made copy next) (found : heap.list h = .ok l) :
    made ≠ h := by
  rintro rfl
  rw [list, Registry.get_of_not_resolves adds.fresh] at found
  cases found

theorem fillsInTurn_of_register (room : ¬ heap.lists.isFull) (l : ValueList)
    (waiting : values.length ≤ l.pending) :
    FillsInTurn { heap with lists := (heap.lists.register l).2 } heap.lists.nextHandle values := by
  rintro front v rest rfl
  rw [List.length_append, List.length_cons] at waiting
  refine ⟨_, fillAll_of_register room front l (by omega), ?_⟩
  have filled := ValueList.fillNext_of_pending
    (l := ⟨l.items ++ front, l.length, l.pending - front.length⟩) (by simp only; omega) v
  rw [fillNext, modifyList_fst (adds_register room _).found, filled]

/-- A list made of values is ready with them. -/
theorem exists_adds_listOfValues (granted : heap.allocator.grants values.length)
    (room : ¬ heap.lists.isFull) :
    ∃ next, heap.listOfValues values = (.ok heap.lists.nextHandle, next) ∧
      heap.Adds heap.lists.nextHandle (.holding values) next :=
  ⟨_, listOfValues_of_not_isFull granted room, adds_register room _⟩

theorem listSlice_congr {g : ListHandle} (same : heap.listRange h start stop = heap.listRange g low high) :
    heap.listSlice h start stop = heap.listSlice g low high := by
  simp only [listSlice, same]

/-- With room in the log, there is a slice wherever there is a range that the allocator grants. -/
theorem isOk_listSlice_iff (found : heap.list h = .ok l) (room : ¬ heap.lists.isFull) :
    (∃ g, (heap.listSlice h start stop).1 = .ok g) ↔
      ∃ part, l.range start stop = .ok part ∧ heap.allocator.grants part.length := by
  have ranged := listRange_of_list found start stop
  cases read : l.range start stop with
  | error e =>
    rw [read] at ranged
    simp [listSlice_of_error ranged]
  | ok part =>
    rw [read] at ranged
    rw [listSlice_of_range ranged]
    by_cases granted : heap.allocator.grants part.length
    · simp [listOfValues_of_not_isFull granted room, granted]
    · simp [listOfValues_of_error (newList_of_refused granted), granted]

/-- On every heap that operations lead to: if a list is ready, the log of lists has room, and the ends of a
range are good, then a slice is the list made of the values of the range. If the allocator grants so many
values, all slots of the slice are filled, it is all that is new, its elements are those of the range, and
from then on the two lists go their own ways. A slice of the slice is possible within its range, as far as
the allocator grants it, and is a slice of the first list. -/
theorem listSlice_copies_range (allocator : Allocator) (limit : Option Nat) (ops : List Operation)
    (h : ListHandle) (l : ValueList) (start stop : Int64) :
    let now := (empty allocator limit).after ops
    now.list h = .ok l → now.listState h = .ok .ready → ¬ now.lists.isFull →
    InBounds l.length start → InBounds l.length stop → start.toInt ≤ stop.toInt →
    ∃ values, now.listRange h start stop = .ok values ∧
      (values.length : Int) = stop.toInt - start.toInt + 1 ∧
      now.listSlice h start stop = now.listOfValues values ∧
      (allocator.grants values.length →
        ∃ made next begun, now.listSlice h start stop = (.ok made, next) ∧
          now.newList values.length = (.ok made, begun) ∧ begun.FillsInTurn made values ∧
          now.Adds made (.holding values) next ∧ made ≠ h ∧
          next.listState made = .ok .ready ∧ next.listLength made = .ok values.length ∧
          (∀ k : Int64, 0 ≤ k.toInt → k.toInt ≤ stop.toInt - start.toInt →
            ∃ v, next.listGet made k = .ok v ∧ now.listGet h (start + k) = .ok v) ∧
          next.Undisturbed h ∧ next.Undisturbed made ∧
          ∀ low high : Int64,
            ((∃ inner, next.listRange made low high = .ok inner) ↔
              ValueList.Within start stop low high) ∧
            (¬ next.lists.isFull →
              ((∃ g, (next.listSlice made low high).1 = .ok g) ↔
                ValueList.Within start stop low high ∧
                  allocator.grants (high.toInt - low.toInt + 1).toNat)) ∧
            (ValueList.Within start stop low high →
              next.listRange made low high = now.listRange h (start + low) (start + high) ∧
              next.listSlice made low high = next.listSlice h (start + low) (start + high))) := by
  intro now found isReady room begins ends order
  have wf : l.WellFormed := ((sound_empty allocator limit).after ops).list found
  have ready := (listState_eq_ready_iff found).mp isReady
  obtain ⟨values, read⟩ := (ValueList.isOk_range_iff ready).mpr ⟨begins, ends, order⟩
  have ranged : now.listRange h start stop = .ok values := (listRange_of_list found start stop).trans read
  have sliced : now.listSlice h start stop = now.listOfValues values := listSlice_of_range ranged
  have kept : now.allocator = allocator := (empty allocator limit).allocator_after ops
  refine ⟨values, ranged, (ValueList.range_shows wf read).1, sliced, fun granted => ?_⟩
  rw [← kept] at granted ⊢
  obtain ⟨next, copied, adds⟩ := exists_adds_listOfValues granted room
  have same : next.allocator = now.allocator := by
    have creation := listOfValues_creation now values
    rw [copied] at creation
    exact creation.allocator
  refine ⟨_, next, _, sliced.trans copied, newList_of_not_isFull granted room,
    fillsInTurn_of_register room _ (Nat.le_refl _), adds, adds.ne found,
    (listState_eq_ready_iff adds.found).mpr rfl, listLength_of_list adds.found, ?_,
    fun later kept => run_of_isOn (adds.kept h l found) (adds.kept h l found) later kept,
    fun later kept => run_of_isOn adds.found adds.found later kept, ?_⟩
  · intro k nonnegative inside
    rw [listGet_of_list adds.found, listGet_of_list found]
    exact ValueList.get_holding wf read nonnegative inside
  · intro low high
    rw [listRange_of_list adds.found, listRange_of_list found]
    refine ⟨ValueList.isOk_range_holding_iff wf read, fun left => ?_, fun within => ?_⟩
    · rw [isOk_listSlice_iff adds.found left, same]
      exact ValueList.exists_granted_range_iff now.allocator wf read
    · have same := ValueList.range_holding wf read within
      refine ⟨same, listSlice_congr ?_⟩
      rw [listRange_of_list adds.found, listRange_of_list (adds.kept h l found), same]

/-- A slice of a slice, in a heap with room for it. -/
theorem listSlice_copies_range_once :
    let h : ListHandle := ⟨0, 0⟩
    let ops : List Operation := [.listOfValues [.int 5, .int 6, .int 7, .int 8]]
    let now := (empty .addressable (some 3)).after ops
    now.list h = .ok (.holding [.int 5, .int 6, .int 7, .int 8]) ∧ now.listState h = .ok .ready ∧
      ¬ now.lists.isFull ∧ InBounds 4 1 ∧ InBounds 4 3 ∧ (1 : Int64).toInt ≤ (3 : Int64).toInt ∧
      Allocator.addressable.grants 3 ∧ ValueList.Within 1 3 1 2 ∧
      ∃ made next, now.listSlice h 1 3 = (.ok made, next) ∧ made ≠ h ∧
        next.listRange made 1 2 = now.listRange h 2 3 ∧
        next.listSlice made 1 2 = next.listSlice h 2 3 := by
  intro h ops now
  have found : now.list h = .ok (.holding [.int 5, .int 6, .int 7, .int 8]) := rfl
  have ready : now.listState h = .ok .ready := (listState_eq_ready_iff found).mpr rfl
  have room : ¬ now.lists.isFull := by decide
  have begins : InBounds 4 1 := ⟨by decide, by decide⟩
  have ends : InBounds 4 3 := ⟨by decide, by decide⟩
  have order : (1 : Int64).toInt ≤ (3 : Int64).toInt := by decide
  have within : ValueList.Within 1 3 1 2 := ⟨by decide, by decide, by decide⟩
  have granted : Allocator.addressable.grants 3 := by decide
  obtain ⟨values, -, count, -, copies⟩ :=
    listSlice_copies_range .addressable (some 3) ops h _ 1 3 found ready room begins ends order
  have length : values.length = 3 := Int.ofNat_inj.mp count
  obtain ⟨made, next, begun, sliced, -, -, -, other, -, -, -, -, -, nested⟩ := copies (length ▸ granted)
  obtain ⟨range, slice⟩ := (nested 1 2).2.2 within
  exact ⟨found, ready, room, begins, ends, order, granted, within, made, next, sliced, other, range, slice⟩

end Heap
end ScriptHost
