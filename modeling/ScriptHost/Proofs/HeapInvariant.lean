import ScriptHost.Proofs.Creation

/-! What holds of every heap that operations lead to from an empty one: its objects are well-formed,
and neither log holds more of them than the limit and the handles allow. -/
namespace ScriptHost

namespace Registry

variable {kind : ObjectKind} {α β : Type} {limit : Option Nat} {wellFormed : α → Prop}
  {r : Registry kind α}

/-- The greatest number of live objects: the limit, or as many as there are indexes. -/
def ceiling : Option Nat → Nat
  | none => UInt32.size
  | some limit => min limit UInt32.size

theorem ceiling_le (limit : Option Nat) : ceiling limit ≤ UInt32.size := by
  cases limit with
  | none => exact Nat.le_refl _
  | some most => exact Nat.min_le_right ..

theorem isFull_iff : r.isFull ↔ ceiling r.limit ≤ r.size := by
  cases limit : r.limit with
  | none => simp [isFull, ceiling, limit]
  | some most =>
    simp only [isFull, ceiling, limit, Option.any_some, Bool.or_eq_true, decide_eq_true_eq]
    omega

structure Sound (limit : Option Nat) (wellFormed : α → Prop) (r : Registry kind α) : Prop where
  objects : ∀ a ∈ r.toList, wellFormed a
  limited : r.limit = limit
  size : r.size ≤ ceiling limit

theorem sound_empty (limit : Option Nat) (wellFormed : α → Prop) :
    (empty limit : Registry kind α).Sound limit wellFormed :=
  ⟨by simp, rfl, Nat.zero_le _⟩

theorem Sound.isFull_iff (sound : r.Sound limit wellFormed) : r.isFull ↔ r.size = ceiling limit := by
  have size := sound.size
  rw [Registry.isFull_iff, sound.limited]
  omega

theorem Sound.size_le (sound : r.Sound limit wellFormed) : r.size ≤ UInt32.size :=
  Nat.le_trans sound.size (ceiling_le limit)

theorem size_register (room : ¬ r.isFull) (a : α) : (r.register a).2.size = r.size + 1 := by
  rw [register_of_not_isFull room, ← length_toList, toList_push, List.length_append]
  rfl

theorem resolves_register (room : ¬ r.isFull) (a : α) {h : Handle kind} :
    (r.register a).2.Resolves h ↔ r.Resolves h ∨ h = r.nextHandle := by
  rw [Resolves, generation_register, size_register room]
  constructor
  · rintro ⟨generation, bound⟩
    by_cases inside : h.index.toNat < r.size
    · exact .inl ⟨generation, inside⟩
    · have last : h.index.toNat = r.nextHandle.index.toNat := by
        rw [index_nextHandle room]
        omega
      exact .inr (Handle.ext (UInt32.toNat_inj.mp last) generation)
  · rintro (⟨generation, inside⟩ | rfl)
    · exact ⟨generation, Nat.lt_succ_of_lt inside⟩
    · exact ⟨rfl, by rw [index_nextHandle room]; exact Nat.lt_succ_self _⟩

theorem not_resolves_nextHandle (room : ¬ r.isFull) : ¬ r.Resolves r.nextHandle := by
  rintro ⟨_, bound⟩
  rw [index_nextHandle room] at bound
  exact Nat.lt_irrefl _ bound

theorem Sound.register (sound : r.Sound limit wellFormed) (room : ¬ r.isFull) {a : α}
    (new : wellFormed a) : (r.register a).2.Sound limit wellFormed := by
  have size := sound.size
  have apart := mt sound.isFull_iff.mpr room
  constructor
  · rw [register_of_not_isFull room, toList_push]
    intro b member
    rcases List.mem_append.mp member with old | last
    · exact sound.objects b old
    · rw [List.mem_singleton.mp last]
      exact new
  · rw [register_of_not_isFull room]
    exact sound.limited
  · rw [size_register room]
    omega

theorem Sound.release (sound : r.Sound limit wellFormed) : r.release.2.Sound limit wellFormed :=
  ⟨by simp, sound.limited, Nat.zero_le _⟩

theorem Sound.modify (sound : r.Sound limit wellFormed) (h : Handle kind) {f : α → Outcome β × α}
    (kept : ∀ a, wellFormed a → wellFormed (f a).2) : (r.modify h f).2.Sound limit wellFormed := by
  by_cases live : r.Resolves h
  · obtain ⟨a, found⟩ := get_of_resolves live
    have member : a ∈ r.toList := List.mem_of_getElem? (get_eq_ok_iff.mp found).2
    constructor
    · rw [modify_of_get found, toList_setIfInBounds]
      intro b changed
      rcases List.mem_or_eq_of_mem_set changed with old | rfl
      · exact sound.objects b old
      · exact kept a (sound.objects a member)
    · rw [modify_of_get found]
      exact sound.limited
    · rw [size_modify]
      exact sound.size
  · rw [modify_of_not_resolves live]
    exact sound

theorem Sound.get (sound : r.Sound limit wellFormed) {h : Handle kind} {a : α}
    (found : r.get h = .ok a) : wellFormed a :=
  sound.objects a (List.mem_of_getElem? (get_eq_ok_iff.mp found).2)

end Registry

namespace Heap

variable {limit : Option Nat} {heap : Heap} {op : Operation}

structure Sound (limit : Option Nat) (heap : Heap) : Prop where
  strings : heap.strings.Sound limit PooledString.WellFormed
  lists : heap.lists.Sound limit ValueList.WellFormed

theorem sound_empty (allocator : Allocator) (limit : Option Nat) : (empty allocator limit).Sound limit :=
  ⟨Registry.sound_empty limit _, Registry.sound_empty limit _⟩

theorem Sound.string (sound : heap.Sound limit) {h : StringHandle} {s : PooledString}
    (found : heap.string h = .ok s) : s.WellFormed := sound.strings.get found

theorem Sound.list (sound : heap.Sound limit) {h : ListHandle} {l : ValueList}
    (found : heap.list h = .ok l) : l.WellFormed := sound.lists.get found

theorem joined_eq_ok {a b : StringHandle} {s : PooledString} (read : heap.joined a b = .ok s) :
    ∃ left right, heap.string a = .ok left ∧ heap.string b = .ok right ∧ s = left.append right := by
  cases first : heap.string a with
  | error e => simp [joined, first, bind, Except.bind] at read
  | ok left =>
    cases second : heap.string b with
    | error e => simp [joined, first, second, bind, Except.bind] at read
    | ok right =>
      simp only [joined, first, second] at read
      cases read
      exact ⟨left, right, rfl, rfl, rfl⟩

/-- A concatenation relies on its parts, which are strings of the heap; any other string is cut. -/
theorem Sound.stringToCreate (sound : heap.Sound limit) {s : PooledString}
    (makes : heap.stringToCreate? op = some s) : s.WellFormed := by
  cases op with
  | createString bytes =>
    cases makes
    exact PooledString.ofBytes_wellFormed bytes
  | concatStrings a b =>
    obtain ⟨left, right, first, second, rfl⟩ := joined_eq_ok (eq_ok_of_toOption makes)
    exact PooledString.append_wellFormed (sound.string first) (sound.string second)
  | parseToken tag token =>
    obtain ⟨_, rfl⟩ := stringToCreate?_parseToken makes
    exact PooledString.ofBytes_wellFormed token
  | readTyped input output prompt tag =>
    obtain ⟨_, token, _, rfl⟩ := stringToCreate?_readTyped makes
    exact PooledString.ofBytes_wellFormed token
  | _ => cases makes

theorem listToCreate_wellFormed {l : ValueList} (makes : heap.listToCreate? op = some l) :
    l.WellFormed := by
  cases op with
  | newList capacity | listOfValues values =>
    cases makes
    simp [ValueList.WellFormed]
  | newListChecked capacity =>
    obtain ⟨_, rfl⟩ := listToCreate?_newListChecked makes
    simp [ValueList.WellFormed]
  | listSlice h start stop =>
    obtain ⟨values, _, rfl⟩ := listToCreate?_listSlice makes
    simp [ValueList.WellFormed]
  | _ => cases makes

theorem edit_wellFormed {h : ListHandle} {f : ValueList → Outcome Unit × ValueList}
    (edits : op.edit? = some (h, f)) (l : ValueList) (wf : l.WellFormed) : (f l).2.WellFormed := by
  cases op with
  | fillNext g v =>
    cases edits
    exact ValueList.fillNext_wellFormed wf v
  | append g v =>
    cases edits
    exact ValueList.append_wellFormed wf v
  | _ => cases edits

theorem Sound.strings_perform (sound : heap.Sound limit) (op : Operation) :
    (heap.perform op).2.strings.Sound limit PooledString.WellFormed := by
  cases releases : op.releases .string with
  | true =>
    rw [strings_of_releases releases]
    exact sound.strings.release
  | false =>
    cases makes : heap.stringToCreate? op with
    | none =>
      rw [strings_of_no_string makes releases]
      exact sound.strings
    | some s =>
      by_cases full : heap.strings.isFull
      · rw [perform_of_full_strings makes full]
        exact sound.strings
      · obtain ⟨a, performed, _⟩ := perform_of_room_strings makes full
        rw [performed]
        exact sound.strings.register full (sound.stringToCreate makes)

theorem Sound.lists_perform (sound : heap.Sound limit) (op : Operation) :
    (heap.perform op).2.lists.Sound limit ValueList.WellFormed := by
  cases releases : op.releases .list with
  | true =>
    rw [lists_of_releases releases]
    exact sound.lists.release
  | false =>
    cases edits : op.edit? with
    | some edit =>
      rw [perform_of_edit edits]
      exact sound.lists.modify edit.1 (edit_wellFormed edits)
    | none =>
      cases makes : heap.listToCreate? op with
      | none =>
        rw [lists_of_no_list makes releases edits]
        exact sound.lists
      | some l =>
        rcases perform_cases_of_list makes with refused | ⟨room, created⟩
        · rw [refused]
          exact sound.lists
        · rw [created]
          exact sound.lists.register room (listToCreate_wellFormed makes)

theorem Sound.perform (sound : heap.Sound limit) (op : Operation) :
    (heap.perform op).2.Sound limit :=
  ⟨sound.strings_perform op, sound.lists_perform op⟩

theorem Sound.after (sound : heap.Sound limit) (ops : List Operation) :
    (heap.after ops).Sound limit := by
  induction ops generalizing heap with
  | nil => exact sound
  | cons op rest ih => exact ih (sound.perform op)

end Heap
end ScriptHost
