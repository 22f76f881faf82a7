import Mathlib.Algebra.GroupWithZero.Nat
import ScriptHost.Proofs.ObjectLimit
import ScriptHost.Proofs.RegistryHistory

/-! The figures of a heap against the tally that its callers can keep: what was created since the last
release, what the releases returned, and how often appends were accepted. -/
namespace ScriptHost

namespace Registry

open Account (handleAt)

variable {kind : ObjectKind} {α β : Type} {r : Registry kind α}

theorem index_handleAt {k : Nat} (bound : k < UInt32.size) (generation : UInt32) :
    (handleAt generation k : Handle kind).index.toNat = k :=
  UInt32.toNat_ofNat_of_lt' bound

theorem handleAt_eq_iff {generation : UInt32} {h : Handle kind} {k : Nat} (bound : k < UInt32.size)
    (current : h.generation = generation) : handleAt generation k = h ↔ k = h.index.toNat := by
  have index : (handleAt generation k : Handle kind).index.toNat = k :=
    index_handleAt bound generation
  constructor
  · rintro rfl
    exact index.symm
  · intro place
    exact Handle.ext (UInt32.toNat_inj.mp (index.trans place)) current.symm

/-- The objects of the log by their handles, each with a measure of it. -/
def sizes (r : Registry kind α) (size : α → Nat) : List (Handle kind × Nat) :=
  r.toList.mapIdx fun k a => (handleAt r.generation k, size a)

theorem map_snd_sizes (r : Registry kind α) (size : α → Nat) :
    (r.sizes size).map Prod.snd = r.toList.map size := by
  apply List.ext_getElem?
  intro k
  simp [sizes, Function.comp_def]

theorem sizes_register (room : ¬ r.isFull) (a : α) (size : α → Nat) :
    (r.register a).2.sizes size = r.sizes size ++ [(r.nextHandle, size a)] := by
  rw [sizes, generation_register, register_of_not_isFull room, toList_push, List.mapIdx_append]
  simp only [sizes, nextHandle, handleAt, length_toList, List.mapIdx_cons, List.mapIdx_nil,
    Nat.zero_add]

/-- An edit in place resizes the one object that its handle reaches. -/
theorem sizes_modify {size : α → Nat} {h : Handle kind} {a : α} (found : r.get h = .ok a)
    (bound : r.size ≤ UInt32.size) {f : α → Outcome β × α} {grow : Nat → Nat}
    (grows : size (f a).2 = grow (size a)) :
    (r.modify h f).2.sizes size =
      (r.sizes size).map fun (g, n) => (g, if g = h then grow n else n) := by
  obtain ⟨current, entry⟩ := get_eq_ok_iff.mp found
  rw [sizes, generation_modify, modify_of_get found, toList_setIfInBounds]
  apply List.ext_getElem?
  intro k
  simp only [sizes, List.getElem?_mapIdx, List.getElem?_map, Option.map_map]
  by_cases inside : k < r.size
  · have named := handleAt_eq_iff (Nat.lt_of_lt_of_le inside bound) current
    by_cases here : k = h.index.toNat
    · subst here
      have place : h.index.toNat < r.toList.length := inside
      rw [List.getElem?_set_self place, entry]
      simp [named.mpr rfl, grows]
    · rw [List.getElem?_set_ne (Ne.symm here)]
      simp [Function.comp_def, mt named.mp here]
  · have outside : r.toList.length ≤ k := Nat.not_lt.mp inside
    rw [List.getElem?_eq_none outside, List.getElem?_eq_none (by rwa [List.length_set])]
    rfl

/-- A fill keeps the length of its list. -/
theorem sizes_fillNext {lists : Registry .list ValueList} (bound : lists.size ≤ UInt32.size)
    (h : ListHandle) (v : Value) :
    (lists.modify h (ValueList.fillNext v)).2.sizes ValueList.length =
      lists.sizes ValueList.length := by
  by_cases live : lists.Resolves h
  · obtain ⟨l, found⟩ := get_of_resolves live
    have length : (l.fillNext v).2.length = id l.length := by
      rw [ValueList.fillNext]
      split <;> rfl
    rw [sizes_modify found bound length]
    simp
  · rw [modify_of_not_resolves live]

/-- Read through their handles, the objects are what the log holds. -/
theorem map_get_sizes (bound : r.size ≤ UInt32.size) (size : α → Nat) :
    ((r.sizes size).map fun (h, _) => r.get h) = r.toList.map .ok := by
  apply List.ext_getElem?
  intro k
  rw [sizes, List.getElem?_map, List.getElem?_mapIdx, List.getElem?_map, Option.map_map]
  cases entry : r.toList[k]? with
  | none => rfl
  | some a =>
    have inside : k < r.size := (List.getElem?_eq_some_iff.mp entry).1
    have index : (handleAt r.generation k : Handle kind).index.toNat = k :=
      index_handleAt (Nat.lt_of_lt_of_le inside bound) r.generation
    exact congrArg some (get_eq_ok_iff.mpr ⟨rfl, by rw [index, entry]⟩)

end Registry

namespace Heap

/-- The capacity that an operation gives to the object it creates. A string has none. -/
def Operation.capacity : Operation → Nat
  | .newList capacity => capacity
  | .newListChecked capacity => capacity.toInt.toNat
  | .listOfValues values => values.length
  | .listSlice _ start stop => stop.toInt.toNat + 1 - start.toInt.toNat
  | _ => 0

/-- The number of objects of a kind that a release returned. -/
def Answer.count : ObjectKind → Answer → Nat
  | .string, .released strings _ => strings
  | .list, .released _ lists => lists
  | _, _ => 0

namespace Event

def created? (kind : ObjectKind) (e : Event) : Option (Handle kind) :=
  e.result.toOption.bind (Answer.issued? kind)

/-- The list that took an append. -/
def extended? : (kind : ObjectKind) → Event → Option (Handle kind)
  | .list, ⟨.append h _, .ok _⟩ => some h
  | _, _ => none

def returned (kind : ObjectKind) (e : Event) : Nat :=
  (e.result.toOption.map (Answer.count kind)).getD 0

end Event

/-- What the operations of a run and their answers tell of one kind of object. -/
structure Tally (kind : ObjectKind) where
  /-- The objects created since the last release, each with its capacity and the appends that it
  accepted, added up. -/
  live : List (Handle kind × Nat)
  /-- The counts that the releases returned, added up. -/
  returned : Nat
  releases : Nat

namespace Tally

variable {kind : ObjectKind} {α : Type}

def start : Tally kind := ⟨[], 0, 0⟩

def record (t : Tally kind) (e : Event) : Tally kind :=
  if e.operation.releases kind then ⟨[], t.returned + e.returned kind, t.releases + 1⟩
  else
    let extended := t.live.map fun (h, n) => (h, if e.extended? kind = some h then n + 1 else n)
    let created := (e.created? kind).toList.map fun h => (h, e.operation.capacity)
    { t with live := extended ++ created }

def of (kind : ObjectKind) (events : List Event) : Tally kind := events.foldl record start

/-- The log holds the objects of the tally, in order and of their sizes. -/
structure Agrees (t : Tally kind) (size : α → Nat) (r : Registry kind α) : Prop where
  live : t.live = r.sizes size
  allocated : r.allocated = r.size + t.returned
  releases : r.releases = t.releases

theorem agrees_start (size : α → Nat) (limit : Option Nat) :
    (start : Tally kind).Agrees size (Registry.empty limit) := by
  constructor <;> rfl

variable {t : Tally kind} {size : α → Nat} {r : Registry kind α} {e : Event}

theorem Agrees.length_live (agrees : t.Agrees size r) : t.live.length = r.size := by
  rw [agrees.live, Registry.sizes, List.length_mapIdx, Registry.length_toList]

theorem record_of_kept (kept : e.operation.releases kind = false)
    (unextended : e.extended? kind = none) :
    t.record e =
      { t with live := t.live ++ (e.created? kind).toList.map fun h => (h, e.operation.capacity) } := by
  simp [record, kept, unextended]

theorem record_of_silent (kept : e.operation.releases kind = false)
    (unextended : e.extended? kind = none) (uncreated : e.created? kind = none) : t.record e = t := by
  rw [record_of_kept kept unextended, uncreated]
  simp

theorem Agrees.register (agrees : t.Agrees size r) (kept : e.operation.releases kind = false)
    (unextended : e.extended? kind = none) (room : ¬ r.isFull) {a : α}
    (created : e.created? kind = some r.nextHandle) (capacity : size a = e.operation.capacity) :
    (t.record e).Agrees size (r.register a).2 := by
  rw [record_of_kept kept unextended, created]
  constructor
  · rw [Registry.sizes_register room, agrees.live, capacity]
    rfl
  · have allocated := agrees.allocated
    rw [Registry.size_register room, Registry.register_of_not_isFull room]
    change r.allocated + 1 = r.size + 1 + t.returned
    omega
  · rw [Registry.register_of_not_isFull room]
    exact agrees.releases

theorem Agrees.release (agrees : t.Agrees size r) (releases : e.operation.releases kind)
    (returned : e.returned kind = r.size) : (t.record e).Agrees size r.release.2 := by
  have allocated := agrees.allocated
  simp only [record, releases, if_true, returned]
  constructor
  · rfl
  · change r.allocated = 0 + (t.returned + r.size)
    omega
  · exact congrArg (· + 1) agrees.releases

theorem Agrees.resize {β : Type} (agrees : t.Agrees size r) (bound : r.size ≤ UInt32.size)
    {h : Handle kind} {a : α} (found : r.get h = .ok a) {f : α → Outcome β × α} {grow : Nat → Nat}
    (grows : size (f a).2 = grow (size a)) :
    Agrees { t with live := t.live.map fun (g, n) => (g, if g = h then grow n else n) } size
      (r.modify h f).2 := by
  constructor
  · rw [Registry.sizes_modify found bound grows, agrees.live]
  · rw [Registry.size_modify, Registry.allocated_modify]
    exact agrees.allocated
  · rw [Registry.releases_modify]
    exact agrees.releases

theorem Agrees.fillNext {t : Tally .list} {r : Registry .list ValueList}
    (agrees : t.Agrees ValueList.length r) (bound : r.size ≤ UInt32.size) (h : ListHandle)
    (v : Value) : t.Agrees ValueList.length (r.modify h (ValueList.fillNext v)).2 := by
  constructor
  · rw [Registry.sizes_fillNext bound, agrees.live]
  · rw [Registry.size_modify, Registry.allocated_modify, agrees.allocated]
  · rw [Registry.releases_modify, agrees.releases]

theorem Agrees.append {t : Tally .list} {r : Registry .list ValueList}
    (agrees : t.Agrees ValueList.length r) (bound : r.size ≤ UInt32.size) (h : ListHandle)
    (v : Value) :
    (t.record ⟨.append h v, (r.modify h (ValueList.append v)).1.map fun _ => .done⟩).Agrees
      ValueList.length (r.modify h (ValueList.append v)).2 := by
  have refused (e : RuntimeError) : t.record ⟨.append h v, .error e⟩ = t :=
    record_of_silent rfl rfl rfl
  by_cases live : r.Resolves h
  · obtain ⟨l, found⟩ := Registry.get_of_resolves live
    by_cases ready : l.pending = 0
    · have appended := ValueList.append_of_ready ready v
      have length : (l.append v).2.length = l.length + 1 := congrArg (·.2.length) appended
      have answer : (r.modify h (ValueList.append v)).1 = .ok () := by
        rw [Registry.modify_of_get found, appended]
      have accepted : t.record ⟨.append h v, .ok .done⟩ =
          { t with live := t.live.map fun (g, n) => (g, if g = h then n + 1 else n) } := by
        simp [record, Operation.releases, Event.extended?, Event.created?, Except.toOption,
          Answer.issued?, Answer.newList?, eq_comm]
      rw [answer]
      exact accepted ▸ agrees.resize bound found length
    · have unappended := ValueList.append_of_pending ready v
      rw [Registry.modify_of_unchanged found (congrArg Prod.snd unappended), unappended]
      exact (refused _).symm ▸ agrees
  · rw [Registry.modify_of_not_resolves live]
    exact (refused _).symm ▸ agrees

end Tally

variable {limit : Option Nat} {kind : ObjectKind} {heap : Heap} {op : Operation}

theorem capacity_of_asks {capacity : Nat} (asks : heap.asks? op = some (kind, capacity)) :
    op.capacity = capacity := by
  cases op with
  | createString bytes | newList size | listOfValues values => cases asks; rfl
  | parseToken tag token => cases tag <;> cases asks; rfl
  | concatStrings a b =>
    simp only [asks?] at asks
    split at asks
    · cases asks; rfl
    · cases asks
  | readTyped input output prompt tag =>
    cases tag <;> try cases asks
    obtain ⟨_, _, asked⟩ := Option.map_eq_some_iff.mp asks
    cases asked
    rfl
  | newListChecked size =>
    simp only [asks?] at asks
    split at asks
    · cases asks
    · cases asks; rfl
  | listSlice h start stop =>
    obtain ⟨_, _, asked⟩ := Option.bind_eq_some_iff.mp asks
    split at asked
    · cases asked; rfl
    · cases asked
  | _ => cases asks

theorem Event.created?_of_silent {result : Outcome Answer} (op : Operation)
    (silent : ∀ h : Handle kind, ¬ Issues result h) : Event.created? kind ⟨op, result⟩ = none :=
  Option.not_isSome_iff_eq_none.mp (Bool.eq_false_iff.mp (creates_of_silent silent))

theorem Tally.Agrees.strings_perform {t : Tally .string} (agrees : t.Agrees (fun _ => 0) heap.strings)
    (op : Operation) :
    (t.record ⟨op, (heap.perform op).1⟩).Agrees (fun _ => 0) (heap.perform op).2.strings := by
  cases releases : op.releases .string with
  | true =>
    have returned : Event.returned .string ⟨op, (heap.perform op).1⟩ = heap.strings.size := by
      cases op with
      | releaseStrings | releaseAll => rfl
      | _ => cases releases
    rw [strings_of_releases releases]
    exact agrees.release releases returned
  | false =>
    cases makes : heap.stringToCreate? op with
    | none =>
      have uncreated := Event.created?_of_silent op (silent_of_no_string makes)
      rw [strings_of_no_string makes releases, record_of_silent releases rfl uncreated]
      exact agrees
    | some s =>
      by_cases full : heap.strings.isFull
      · rw [perform_of_full_strings makes full, record_of_silent releases rfl rfl]
        exact agrees
      · obtain ⟨a, performed, issued⟩ := perform_of_room_strings makes full
        have capacity := capacity_of_asks (asks?_of_string makes)
        rw [performed]
        exact agrees.register releases rfl full issued capacity.symm

theorem Event.extended?_of_unedited {result : Outcome Answer} (unedited : op.edit? = none) :
    Event.extended? .list ⟨op, result⟩ = none := by
  cases op with
  | append h v => cases unedited
  | _ => rfl

theorem Tally.Agrees.lists_perform {t : Tally .list} (sound : heap.Sound limit)
    (agrees : t.Agrees ValueList.length heap.lists) (op : Operation) :
    (t.record ⟨op, (heap.perform op).1⟩).Agrees ValueList.length (heap.perform op).2.lists := by
  cases releases : op.releases .list with
  | true =>
    have returned : Event.returned .list ⟨op, (heap.perform op).1⟩ = heap.lists.size := by
      cases op with
      | releaseLists | releaseAll => rfl
      | _ => cases releases
    rw [lists_of_releases releases]
    exact agrees.release releases returned
  | false =>
    cases edits : op.edit? with
    | some edit =>
      have bound : heap.lists.size ≤ UInt32.size := sound.lists.size_le
      cases op with
      | fillNext h v =>
        have makes : heap.listToCreate? (.fillNext h v) = none := rfl
        have uncreated := Event.created?_of_silent (.fillNext h v) (silent_of_no_list makes)
        rw [record_of_silent rfl rfl uncreated]
        exact agrees.fillNext bound h v
      | append h v => exact agrees.append bound h v
      | _ => cases edits
    | none =>
      have unextended (result : Outcome Answer) : Event.extended? .list ⟨op, result⟩ = none :=
        Event.extended?_of_unedited edits
      cases makes : heap.listToCreate? op with
      | none =>
        have uncreated := Event.created?_of_silent op (silent_of_no_list makes)
        rw [lists_of_no_list makes releases edits, record_of_silent releases (unextended _) uncreated]
        exact agrees
      | some l =>
        rcases perform_cases_of_list makes with refused | ⟨room, created⟩
        · rw [refused, record_of_silent releases (unextended _) rfl]
          exact agrees
        · have capacity := capacity_of_asks (sound.asks?_of_list makes)
          rw [created]
          exact agrees.register releases (unextended _) room rfl capacity.symm

/-- The tallies of both kinds along a run. -/
theorem tallies_agree (sound : heap.Sound limit) {strings : Tally .string} {lists : Tally .list}
    (first : strings.Agrees (fun _ => 0) heap.strings)
    (second : lists.Agrees ValueList.length heap.lists) (ops : List Operation) :
    ((heap.events ops).foldl Tally.record strings).Agrees (fun _ => 0) (heap.after ops).strings ∧
      ((heap.events ops).foldl Tally.record lists).Agrees ValueList.length (heap.after ops).lists := by
  induction ops generalizing heap strings lists with
  | nil => exact ⟨first, second⟩
  | cons op rest ih =>
    exact ih (sound.perform op) (first.strings_perform op) (second.lists_perform sound op)

theorem stringBytes_stats (heap : Heap) :
    heap.stats.stringBytes = ((heap.strings.toList.map PooledString.bytes).map List.length).sum := by
  simp only [stats, List.sum_eq_foldl, List.foldl_map, PooledString.length_bytes]

theorem listElements_stats (heap : Heap) :
    heap.stats.listElements = ((heap.lists.sizes ValueList.length).map Prod.snd).sum := by
  simp only [stats, Registry.map_snd_sizes, List.sum_eq_foldl, List.foldl_map]

theorem Sound.stats_fillNext (sound : heap.Sound limit) (h : ListHandle) (v : Value) :
    (heap.perform (.fillNext h v)).2.stats = heap.stats := by
  have sizes := Registry.sizes_fillNext sound.lists.size_le h v
  have elements : (heap.perform (.fillNext h v)).2.stats.listElements = heap.stats.listElements := by
    rw [listElements_stats, listElements_stats, perform_of_edit rfl, sizes]
  rw [perform_of_edit rfl] at elements ⊢
  simp only [stats] at elements ⊢
  rw [elements, Registry.size_modify, Registry.allocated_modify, Registry.releases_modify]

/-- The figures behind any run are those of the tallies. What a fill does shows in none of them. -/
theorem stats_account_for_run (allocator : Allocator) (limit : Option Nat) (ops : List Operation) :
    let heap := (empty allocator limit).after ops
    let strings := Tally.of .string ((empty allocator limit).events ops)
    let lists := Tally.of .list ((empty allocator limit).events ops)
    (heap.stats.stringsLive = strings.live.length ∧ heap.stats.listsLive = lists.live.length) ∧
    (heap.perform .releaseAll).1 = .ok (.released heap.stats.stringsLive heap.stats.listsLive) ∧
    (heap.stats.stringsAllocated = heap.stats.stringsLive + strings.returned ∧
      heap.stats.listsAllocated = heap.stats.listsLive + lists.returned) ∧
    (∃ texts : List Utf8.Bytes,
      (strings.live.map fun (h, _) => heap.stringBytes h) = texts.map .ok ∧
        heap.stats.stringBytes = (texts.map List.length).sum) ∧
    heap.stats.listElements = (lists.live.map Prod.snd).sum ∧
    (∀ h v, (heap.perform (.fillNext h v)).2.stats = heap.stats) ∧
    heap.stats.releases = min strings.releases lists.releases := by
  intro heap strings lists
  have sound : heap.Sound limit := (sound_empty allocator limit).after ops
  obtain ⟨first, second⟩ : strings.Agrees (fun _ => 0) heap.strings ∧
      lists.Agrees ValueList.length heap.lists :=
    tallies_agree (sound_empty allocator limit) (Tally.agrees_start _ limit) (Tally.agrees_start _ limit) ops
  have texts : (strings.live.map fun (h, _) => heap.stringBytes h) =
      (heap.strings.toList.map PooledString.bytes).map .ok := by
    have read := congrArg (List.map (Except.map PooledString.bytes))
      (Registry.map_get_sizes sound.strings.size_le fun _ => 0)
    rw [first.live, List.map_map]
    rw [List.map_map, List.map_map] at read
    exact read
  refine ⟨⟨first.length_live.symm, second.length_live.symm⟩, rfl,
    ⟨first.allocated, second.allocated⟩, ⟨_, texts, stringBytes_stats heap⟩, ?_,
    sound.stats_fillNext, ?_⟩
  · rw [listElements_stats, second.live]
  · rw [← first.releases, ← second.releases]
    rfl

/-- The string is cut at its zero; the list counts with both slots before they are filled, and with what was
appended. Only the lists were released before. -/
example :
    let ops : List Operation := [.newList 7, .releaseLists, .createString [0x61, 0x62, 0x00, 0x63],
      .newList 2, .fillNext ⟨0, 1⟩ .none, .fillNext ⟨0, 1⟩ (.int 1), .append ⟨0, 1⟩ (.int 2), .newList 4]
    ((empty .addressable (some 2)).after ops).stats =
      { stringsLive := 1, listsLive := 2, stringsAllocated := 1, listsAllocated := 3, stringBytes := 2
        listElements := 7, releases := 0 } := by
  decide

end Heap
end ScriptHost
