import ScriptHost.Proofs.HeapInvariant

/-! Room for new objects. An operation that asks for an object with valid arguments gets it unless the
log of its kind is full or the allocator refuses the capacity, and a release makes all of the room
free again. -/
namespace ScriptHost

namespace Allocator

theorem grants_zero (allocator : Allocator) : allocator.grants 0 := allocator.grants_small 0 (by decide)

/-- What is known of every allocator. -/
theorem grants_iff (allocator : Allocator) {capacity : Nat}
    (known : capacity < 100000 ∨ 1 <<< 59 ≤ capacity) :
    allocator.grants capacity ↔ ¬ 1 <<< 59 ≤ capacity := by
  rcases known with small | huge
  · refine iff_of_true (allocator.grants_small capacity small) (Nat.not_le.mpr ?_)
    exact Nat.lt_trans small (by decide)
  · exact iff_of_false (allocator.refuses_huge capacity huge) (not_not_intro huge)

end Allocator

namespace Heap

/-- The kind and the capacity of the object that an operation asks for, if the operation can be
refused for no other reason than room. A string has no capacity. -/
def asks? (heap : Heap) : Operation → Option (ObjectKind × Nat)
  | .createString _ | .parseToken .string _ => some (.string, 0)
  | .concatStrings a b =>
    if heap.strings.Resolves a ∧ heap.strings.Resolves b then some (.string, 0) else none
  | .readTyped input output prompt .string =>
    (wordRead? input output prompt).map fun _ => (.string, 0)
  | .newList capacity => some (.list, capacity)
  | .newListChecked capacity =>
    if capacity.toInt < 0 then none else some (.list, capacity.toInt.toNat)
  | .listOfValues values => some (.list, values.length)
  | .listSlice h start stop =>
    (heap.list h).toOption.bind fun l =>
      if l.pending = 0 ∧ 0 ≤ start.toInt ∧ start.toInt ≤ stop.toInt ∧ stop.toInt < l.length then
        some (.list, stop.toInt.toNat + 1 - start.toInt.toNat)
      else none
  | _ => none

/-- The operation asks for an object of the kind, of a capacity that the allocator grants. -/
def asksFor (heap : Heap) (kind : ObjectKind) (op : Operation) : Bool :=
  (heap.asks? op).any fun (asked, capacity) => asked == kind && heap.allocator.grants capacity

/-- The number of operations of a run that ask for an object of the kind. -/
def requests (kind : ObjectKind) (heap : Heap) : List Operation → Nat
  | [] => 0
  | op :: rest => (heap.asksFor kind op).toNat + (heap.perform op).2.requests kind rest

def Event.creates (kind : ObjectKind) (e : Event) : Bool :=
  (e.result.toOption.bind (Answer.issued? kind)).isSome

/-- One new object of a kind, reached by the handle, and no other change to what is live. -/
structure Added {kind : ObjectKind} (heap : Heap) (h : Handle kind) (next : Heap) : Prop where
  count : next.liveCount kind = heap.liveCount kind + 1
  other : ∀ kind', kind' ≠ kind → next.liveCount kind' = heap.liveCount kind'
  new : ¬ heap.Resolves h
  reached : ∀ g : Handle kind, next.Resolves g ↔ heap.Resolves g ∨ g = h

variable {limit : Option Nat} {kind : ObjectKind} {heap : Heap} {op : Operation} {capacity : Nat}

theorem isSome_joined_iff {a b : StringHandle} :
    (heap.joined a b).toOption.isSome ↔ heap.strings.Resolves a ∧ heap.strings.Resolves b := by
  by_cases first : heap.strings.Resolves a
  · obtain ⟨s, left⟩ := Registry.get_of_resolves first
    by_cases second : heap.strings.Resolves b
    · obtain ⟨t, right⟩ := Registry.get_of_resolves second
      simp [joined, string, left, right, bind, Except.bind, pure, Except.pure, Except.toOption, first,
        second]
    · simp [joined, string, left, Registry.get_of_not_resolves second, bind, Except.bind,
        Except.toOption, second]
  · simp [joined, string, Registry.get_of_not_resolves first, bind, Except.bind, Except.toOption, first]

/-- An operation that asks for a string would create one. -/
theorem asks?_of_string {s : PooledString} (makes : heap.stringToCreate? op = some s) :
    heap.asks? op = some (.string, 0) := by
  cases op with
  | createString bytes => rfl
  | parseToken tag token =>
    obtain ⟨rfl, _⟩ := stringToCreate?_parseToken makes
    rfl
  | concatStrings a b =>
    have live := isSome_joined_iff.mp (Option.isSome_of_eq_some makes)
    exact if_pos live
  | readTyped input output prompt tag =>
    obtain ⟨rfl, token, word, _⟩ := stringToCreate?_readTyped makes
    rw [asks?, word]
    rfl
  | _ => cases makes

theorem Sound.asks?_of_list (sound : heap.Sound limit) {l : ValueList}
    (makes : heap.listToCreate? op = some l) : heap.asks? op = some (.list, l.length) := by
  cases op with
  | newList capacity | listOfValues values =>
    cases makes
    rfl
  | newListChecked size =>
    obtain ⟨nonnegative, rfl⟩ := listToCreate?_newListChecked makes
    exact if_neg (Int.not_lt.mpr nonnegative)
  | listSlice h start stop =>
    obtain ⟨values, read, rfl⟩ := listToCreate?_listSlice makes
    obtain ⟨source, found, ranged⟩ := exists_list_of_listRange read
    obtain ⟨ready, inside, _⟩ := ValueList.range_eq_ok_iff.mp ranged
    simp only [asks?, found, ValueList.length_of_range (sound.list found) ranged]
    exact if_pos ⟨ready, inside⟩
  | _ => cases makes

/-- An operation that would create no object asks for none. -/
theorem asks?_eq_none (noString : heap.stringToCreate? op = none)
    (noList : heap.listToCreate? op = none) : heap.asks? op = none := by
  cases op with
  | createString bytes => cases noString
  | newList capacity | listOfValues values => cases noList
  | parseToken tag token =>
    cases tag with
    | string => cases noString
    | int | float | bool | char | none | list => rfl
  | concatStrings a b =>
    apply if_neg
    intro live
    have some := isSome_joined_iff.mpr live
    rw [stringToCreate?] at noString
    rw [noString] at some
    cases some
  | readTyped input output prompt tag =>
    cases tag with
    | string =>
      rw [asks?, Option.map_eq_none_iff.mp noString]
      rfl
    | int | float | bool | char | none | list => rfl
  | newListChecked size =>
    simp only [listToCreate?] at noList
    split at noList
    · next negative => exact if_pos negative
    · cases noList
  | listSlice h start stop =>
    cases found : heap.list h with
    | error e => simp only [asks?, found]; rfl
    | ok source =>
      simp only [asks?, found]
      apply if_neg
      rintro ⟨ready, inside⟩
      have read := ValueList.range_eq_ok_iff.mpr ⟨ready, inside, rfl⟩
      simp [listToCreate?, listRange, found, bind, Except.bind, read, Except.toOption] at noList
  | _ => rfl

theorem Sound.stringToCreate_of_asks (sound : heap.Sound limit)
    (asks : heap.asks? op = some (.string, capacity)) :
    capacity = 0 ∧ ∃ s, heap.stringToCreate? op = some s := by
  cases makes : heap.stringToCreate? op with
  | some s =>
    rw [asks?_of_string makes] at asks
    cases asks
    exact ⟨rfl, s, rfl⟩
  | none =>
    cases other : heap.listToCreate? op with
    | some l => rw [sound.asks?_of_list other] at asks; cases asks
    | none => rw [asks?_eq_none makes other] at asks; cases asks

theorem Sound.listToCreate_of_asks (sound : heap.Sound limit)
    (asks : heap.asks? op = some (.list, capacity)) :
    ∃ l, heap.listToCreate? op = some l ∧ l.length = capacity := by
  cases makes : heap.listToCreate? op with
  | some l =>
    rw [sound.asks?_of_list makes] at asks
    cases asks
    exact ⟨l, rfl, rfl⟩
  | none =>
    cases other : heap.stringToCreate? op with
    | some s => rw [asks?_of_string other] at asks; cases asks
    | none => rw [asks?_eq_none other makes] at asks; cases asks

theorem Sound.liveCount_le (sound : heap.Sound limit) (kind : ObjectKind) :
    heap.liveCount kind ≤ Registry.ceiling limit := by
  cases kind with
  | string => exact sound.strings.size
  | list => exact sound.lists.size

/-- What an operation that asks for an object answers if its log is full or its capacity refused. -/
theorem Sound.perform_of_refused (sound : heap.Sound limit)
    (asks : heap.asks? op = some (kind, capacity))
    (refused : heap.liveCount kind = Registry.ceiling limit ∨ ¬ heap.allocator.grants capacity) :
    heap.perform op = (.error (.capacityExhausted kind), heap) := by
  cases kind with
  | string =>
    obtain ⟨rfl, s, makes⟩ := sound.stringToCreate_of_asks asks
    have full : heap.liveCount .string = Registry.ceiling limit := by
      rcases refused with full | big
      · exact full
      · exact absurd heap.allocator.grants_zero big
    exact perform_of_full_strings makes (sound.strings.isFull_iff.mpr full)
  | list =>
    obtain ⟨l, makes, rfl⟩ := sound.listToCreate_of_asks asks
    apply perform_of_no_room_lists makes
    exact refused.imp_left sound.lists.isFull_iff.mpr

theorem added_string (room : ¬ heap.strings.isFull) (s : PooledString) :
    heap.Added heap.strings.nextHandle { heap with strings := (heap.strings.register s).2 } := by
  refine ⟨Registry.size_register room s, ?_, Registry.not_resolves_nextHandle room,
    fun g => Registry.resolves_register room s⟩
  intro kind' other
  cases kind' with
  | string => exact absurd rfl other
  | list => rfl

theorem added_list (room : ¬ heap.lists.isFull) (l : ValueList) :
    heap.Added heap.lists.nextHandle { heap with lists := (heap.lists.register l).2 } := by
  refine ⟨Registry.size_register room l, ?_, Registry.not_resolves_nextHandle room,
    fun g => Registry.resolves_register room l⟩
  intro kind' other
  cases kind' with
  | string => rfl
  | list => exact absurd rfl other

theorem Sound.perform_of_room (sound : heap.Sound limit)
    (asks : heap.asks? op = some (kind, capacity))
    (unrefused : ¬ (heap.liveCount kind = Registry.ceiling limit ∨ ¬ heap.allocator.grants capacity)) :
    ∃ a h, (heap.perform op).1 = .ok a ∧ a.issued? kind = some h ∧
      heap.Added h (heap.perform op).2 := by
  obtain ⟨room, ungranted⟩ := not_or.mp unrefused
  have granted := Decidable.not_not.mp ungranted
  cases kind with
  | string =>
    obtain ⟨_, s, makes⟩ := sound.stringToCreate_of_asks asks
    have notFull : ¬ heap.strings.isFull := mt sound.strings.isFull_iff.mp room
    obtain ⟨a, performed, issued⟩ := perform_of_room_strings makes notFull
    rw [performed]
    exact ⟨a, _, rfl, issued, added_string notFull s⟩
  | list =>
    obtain ⟨l, makes, rfl⟩ := sound.listToCreate_of_asks asks
    have notFull : ¬ heap.lists.isFull := mt sound.lists.isFull_iff.mp room
    rw [perform_of_room_lists makes granted notFull]
    exact ⟨_, _, rfl, rfl, added_list notFull l⟩

/-- An operation that asks for no object of a kind leaves the number of them as it was. -/
theorem Sound.liveCount_of_not_asks (sound : heap.Sound limit)
    (unasked : ∀ capacity, heap.asks? op ≠ some (kind, capacity))
    (kept : op.releases kind = false) : (heap.perform op).2.liveCount kind = heap.liveCount kind := by
  cases kind with
  | string =>
    have makes : heap.stringToCreate? op = none :=
      Option.eq_none_iff_forall_ne_some.mpr fun s makes => unasked _ (asks?_of_string makes)
    rw [liveCount, strings_of_no_string makes kept]
    rfl
  | list =>
    have makes : heap.listToCreate? op = none :=
      Option.eq_none_iff_forall_ne_some.mpr fun l makes => unasked _ (sound.asks?_of_list makes)
    cases edits : op.edit? with
    | some edit =>
      rw [perform_of_edit edits]
      exact Registry.size_modify ..
    | none =>
      rw [liveCount, lists_of_no_list makes kept edits]
      rfl

theorem asksFor_of_asks (asks : heap.asks? op = some (kind, capacity)) :
    heap.asksFor kind op = heap.allocator.grants capacity := by
  simp [asksFor, asks]

theorem asksFor_of_not_asks (unasked : ∀ capacity, heap.asks? op ≠ some (kind, capacity)) :
    heap.asksFor kind op = false := by
  cases asks : heap.asks? op with
  | none => rw [asksFor, asks]; rfl
  | some request =>
    obtain ⟨asked, capacity⟩ := request
    have other : asked ≠ kind := by
      rintro rfl
      exact unasked capacity asks
    simp [asksFor, asks, other]

/-- One more object for every operation that asks for it, up to the ceiling. -/
theorem Sound.liveCount_perform (sound : heap.Sound limit) (kept : op.releases kind = false) :
    (heap.perform op).2.liveCount kind =
      min (heap.liveCount kind + (heap.asksFor kind op).toNat) (Registry.ceiling limit) := by
  have bound := sound.liveCount_le kind
  by_cases asked : ∃ capacity, heap.asks? op = some (kind, capacity)
  · obtain ⟨capacity, asks⟩ := asked
    rw [asksFor_of_asks asks]
    by_cases refused : heap.liveCount kind = Registry.ceiling limit ∨ ¬ heap.allocator.grants capacity
    · rw [sound.perform_of_refused asks refused]
      rcases refused with full | big
      · rw [full, Nat.min_eq_right (Nat.le_add_right _ _)]
      · rw [Bool.not_eq_true] at big
        rw [big]
        exact (Nat.min_eq_left bound).symm
    · obtain ⟨_, _, _, _, added⟩ := sound.perform_of_room asks refused
      obtain ⟨room, ungranted⟩ := not_or.mp refused
      rw [added.count, Decidable.not_not.mp ungranted]
      exact (Nat.min_eq_left (Nat.lt_of_le_of_ne bound room)).symm
  · have unasked := not_exists.mp asked
    rw [sound.liveCount_of_not_asks unasked kept, asksFor_of_not_asks unasked]
    exact (Nat.min_eq_left bound).symm

theorem Sound.liveCount_after (sound : heap.Sound limit) (ops : List Operation)
    (kept : ∀ op ∈ ops, op.releases kind = false) :
    (heap.after ops).liveCount kind =
      min (heap.liveCount kind + heap.requests kind ops) (Registry.ceiling limit) := by
  induction ops generalizing heap with
  | nil => exact (Nat.min_eq_left (sound.liveCount_le kind)).symm
  | cons op rest ih =>
    have first := sound.liveCount_perform (kept op List.mem_cons_self)
    have later := ih (sound.perform op) fun next member => kept next (List.mem_cons_of_mem _ member)
    rw [Heap.after, later, first, requests]
    omega

theorem creates_iff {e : Event} : e.creates kind ↔ ∃ h : Handle kind, Issues e.result h := by
  obtain ⟨op, result⟩ := e
  cases result with
  | error e =>
    constructor
    · intro creates
      cases creates
    · rintro ⟨h, issued⟩
      exact absurd issued (not_issues_error e h)
  | ok a =>
    simp only [issues_ok_iff]
    exact Option.isSome_iff_exists

theorem creates_of_silent {result : Outcome Answer} (silent : ∀ h : Handle kind, ¬ Issues result h) :
    Event.creates kind ⟨op, result⟩ = false := by
  apply Bool.eq_false_iff.mpr
  intro creates
  obtain ⟨h, issued⟩ := creates_iff.mp creates
  exact silent h issued

theorem Grown.size {α : Type} {result : Outcome Answer} {log next : Registry kind α}
    (grown : Grown result log next) :
    next.size = log.size + (Event.creates kind ⟨op, result⟩).toNat := by
  cases grown with
  | same silent => rw [creates_of_silent silent]; rfl
  | added a room issued =>
    rw [Registry.size_register room, creates_iff.mpr ⟨_, issued⟩]
    rfl

theorem liveCount_of_creates (heap : Heap) (kept : op.releases kind = false) :
    (heap.perform op).2.liveCount kind =
      heap.liveCount kind + (Event.creates kind ⟨op, (heap.perform op).1⟩).toNat := by
  cases kind with
  | string => exact (strings_grown heap op kept).size
  | list =>
    cases edits : op.edit? with
    | none => exact (lists_grown heap op kept edits).size
    | some edit =>
      have silent : ∀ h : ListHandle, ¬ Issues (heap.perform op).1 h := by
        intro h issued
        rw [edit?_of_issues issued] at edits
        cases edits
      rw [creates_of_silent silent, perform_of_edit edits]
      exact Registry.size_modify ..

/-- Nothing but a creation that succeeds takes room. -/
theorem liveCount_after_of_creates (heap : Heap) (ops : List Operation)
    (kept : ∀ op ∈ ops, op.releases kind = false) :
    (heap.after ops).liveCount kind =
      heap.liveCount kind + (heap.events ops).countP (·.creates kind) := by
  induction ops generalizing heap with
  | nil => rfl
  | cons op rest ih =>
    have first := heap.liveCount_of_creates (kept op List.mem_cons_self)
    have later := ih (heap.perform op).2 fun next member => kept next (List.mem_cons_of_mem _ member)
    have one : (if Event.creates kind ⟨op, (heap.perform op).1⟩ then 1 else 0) =
        (Event.creates kind ⟨op, (heap.perform op).1⟩).toNat := by
      cases Event.creates kind ⟨op, (heap.perform op).1⟩ <;> rfl
    rw [after, later, first, events, List.countP_cons, one]
    omega

theorem liveCount_of_releases (releases : op.releases kind) :
    (heap.perform op).2.liveCount kind = 0 := by
  cases kind with
  | string => rw [liveCount, strings_of_releases releases]; rfl
  | list => rw [liveCount, lists_of_releases releases]; rfl

/-! An operation that asks for an object with valid arguments has two outcomes, and the room decides. -/

theorem Sound.error_iff_of_asks (sound : heap.Sound limit)
    (asks : heap.asks? op = some (kind, capacity)) :
    (∃ e, (heap.perform op).1 = .error e) ↔
      heap.liveCount kind = Registry.ceiling limit ∨ ¬ heap.allocator.grants capacity := by
  constructor
  · rintro ⟨e, failed⟩
    apply Decidable.byContradiction
    intro unrefused
    obtain ⟨a, h, succeeded, _⟩ := sound.perform_of_room asks unrefused
    rw [succeeded] at failed
    cases failed
  · intro refused
    rw [sound.perform_of_refused asks refused]
    exact ⟨_, rfl⟩

theorem Sound.perform_of_asks_error (sound : heap.Sound limit)
    (asks : heap.asks? op = some (kind, capacity)) {e : RuntimeError}
    (failed : (heap.perform op).1 = .error e) :
    heap.perform op = (.error (.capacityExhausted kind), heap) :=
  sound.perform_of_refused asks ((sound.error_iff_of_asks asks).mp ⟨e, failed⟩)

theorem Sound.added_of_asks_ok (sound : heap.Sound limit)
    (asks : heap.asks? op = some (kind, capacity)) {a : Answer} (ok : (heap.perform op).1 = .ok a) :
    ∃ h : Handle kind, a.issued? kind = some h ∧ heap.Added h (heap.perform op).2 := by
  by_cases refused : heap.liveCount kind = Registry.ceiling limit ∨ ¬ heap.allocator.grants capacity
  · rw [sound.perform_of_refused asks refused] at ok
    cases ok
  · obtain ⟨b, h, succeeded, issued, added⟩ := sound.perform_of_room asks refused
    obtain rfl : b = a := Except.ok.inj (succeeded.symm.trans ok)
    exact ⟨h, issued, added⟩

theorem Sound.creates_behind_release (sound : heap.Sound limit) (releases : op.releases kind)
    (later : List Operation) (kept : ∀ op ∈ later, op.releases kind = false) :
    ((heap.perform op).2.events later).countP (·.creates kind) =
      min ((heap.perform op).2.requests kind later) (Registry.ceiling limit) := by
  have empty : (heap.perform op).2.liveCount kind = 0 := liveCount_of_releases releases
  have counted := (heap.perform op).2.liveCount_after_of_creates later kept
  have bounded := (sound.perform op).liveCount_after later kept
  omega

/-- Behind any operations on a heap with a limit, neither log holds more objects than the limit and 2^32
allow. An operation that asks for an object with valid arguments fails if and only if its log holds
that many or the allocator refuses the capacity, whatever the other log holds; below 100000 no capacity is
refused, and from 2^59 on each one. It fails for lack of room, without a trace, and succeeds with exactly
one new object. From a release on, as many objects as the operations ask for are created, up to the
limit. -/
theorem objects_up_to_limit (allocator : Allocator) (limit : Option Nat) (ops : List Operation) :
    let heap := (empty allocator limit).after ops
    let ceiling := Registry.ceiling limit
    (∀ kind, heap.liveCount kind ≤ ceiling) ∧
    (∀ op kind capacity, heap.asks? op = some (kind, capacity) →
      ((∃ e, (heap.perform op).1 = .error e) ↔
        heap.liveCount kind = ceiling ∨ ¬ allocator.grants capacity) ∧
      (capacity < 100000 ∨ 1 <<< 59 ≤ capacity →
        ((∃ e, (heap.perform op).1 = .error e) ↔
          heap.liveCount kind = ceiling ∨ 1 <<< 59 ≤ capacity)) ∧
      (∀ e, (heap.perform op).1 = .error e →
        heap.perform op = (.error (.capacityExhausted kind), heap)) ∧
      (∀ a, (heap.perform op).1 = .ok a →
        ∃ h : Handle kind, a.issued? kind = some h ∧ heap.Added h (heap.perform op).2)) ∧
    (∀ op kind, op.releases kind → ∀ later, (∀ op ∈ later, op.releases kind = false) →
      let released := (heap.perform op).2
      (released.events later).countP (·.creates kind) =
        min (released.requests kind later) ceiling) := by
  intro heap ceiling
  have sound : heap.Sound limit := (sound_empty allocator limit).after ops
  refine ⟨sound.liveCount_le, ?_, ?_⟩
  · intro op kind capacity asks
    have kept : heap.allocator = allocator := (empty allocator limit).allocator_after ops
    have condition := sound.error_iff_of_asks asks
    rw [kept] at condition
    refine ⟨condition, fun known => ?_, fun e failed => sound.perform_of_asks_error asks failed,
      fun a ok => sound.added_of_asks_ok asks ok⟩
    rw [condition, allocator.grants_iff known, Decidable.not_not]
  · intro op kind releases later kept
    exact sound.creates_behind_release releases later kept

/-- Three lists are asked for where there is room for one string and one list, and again behind a
release of the lists. -/
theorem objects_up_to_limit_once :
    let asking : List Operation := [.newList 0, .createString [0x61], .newList (1 <<< 59), .newList 2]
    let heap := (empty .addressable (some 1)).after asking
    let released := (heap.perform .releaseLists).2
    heap.liveCount .list = 1 ∧ heap.asks? (.newList 5) = some (.list, 5) ∧
      (∃ e, (heap.perform (.newList 5)).1 = .error e) ∧
      (released.events asking).countP (·.creates .list) = 1 := by
  intro asking heap released
  obtain ⟨_, condition, again⟩ := objects_up_to_limit .addressable (some 1) asking
  have full : heap.liveCount .list = 1 := by decide
  have asks : heap.asks? (.newList 5) = some (.list, 5) := rfl
  refine ⟨full, asks, (condition _ _ _ asks).1.mpr (.inl full), ?_⟩
  have kept : ∀ op ∈ asking, op.releases .list = false := by decide
  exact again .releaseLists .list rfl asking kept

end Heap
end ScriptHost
