import ScriptHost.Error

/-! The log of the live objects of one kind. Objects are only added, and all of them are released
together; a release starts a new generation, which no handle issued before belongs to. -/
namespace ScriptHost

structure Registry (kind : ObjectKind) (α : Type) where
  entries : Array α
  generation : UInt32
  /-- The greatest number of live objects, if there is one. -/
  limit : Option Nat
  /-- Objects registered since the start, released ones included. -/
  allocated : Nat
  releases : Nat

namespace Registry

variable {kind : ObjectKind} {α β : Type}

def empty (limit : Option Nat) : Registry kind α := ⟨#[], 0, limit, 0, 0⟩

def size (r : Registry kind α) : Nat := r.entries.size

def isEmpty (r : Registry kind α) : Bool := r.entries.isEmpty

def toList (r : Registry kind α) : List α := r.entries.toList

/-- The limit is reached, or the next index would not fit into a handle. -/
def isFull (r : Registry kind α) : Bool :=
  UInt32.size ≤ r.size || r.limit.any (· ≤ r.size)

def nextHandle (r : Registry kind α) : Handle kind := ⟨UInt32.ofNat r.size, r.generation⟩

def register (r : Registry kind α) (a : α) : Outcome (Handle kind) × Registry kind α :=
  if r.isFull then (.error (.capacityExhausted kind), r)
  else (.ok r.nextHandle, { r with entries := r.entries.push a, allocated := r.allocated + 1 })

/-- The handle is of the current generation and its index is in use. -/
def Resolves (r : Registry kind α) (h : Handle kind) : Prop :=
  h.generation = r.generation ∧ h.index.toNat < r.size

instance (r : Registry kind α) (h : Handle kind) : Decidable (r.Resolves h) :=
  inferInstanceAs (Decidable (_ ∧ _))

def get (r : Registry kind α) (h : Handle kind) : Outcome α :=
  if live : r.Resolves h then
    have : h.index.toNat < r.entries.size := live.2
    .ok r.entries[h.index.toNat]
  else .error (.staleHandle kind)

/-- Runs an operation on one object in place, whether the operation succeeds or fails. -/
def modify (r : Registry kind α) (h : Handle kind) (f : α → Outcome β × α) :
    Outcome β × Registry kind α :=
  if live : r.Resolves h then
    have : h.index.toNat < r.entries.size := live.2
    let (result, a) := f r.entries[h.index.toNat]
    (result, { r with entries := r.entries.set h.index.toNat a })
  else (.error (.staleHandle kind), r)

/-- Removes all objects, oldest first. The generation counter wraps around. -/
def release (r : Registry kind α) : List α × Registry kind α :=
  (r.toList, { r with entries := #[], generation := r.generation + 1, releases := r.releases + 1 })

/-- A number of releases in a row, of which only the first finds objects. -/
def releaseTimes (r : Registry kind α) : Nat → Registry kind α
  | 0 => r
  | n + 1 => { r with
      entries := #[]
      generation := r.generation + UInt32.ofNat (n + 1)
      releases := r.releases + (n + 1) }

@[simp] theorem toList_empty (limit : Option Nat) :
    (empty limit : Registry kind α).toList = [] := rfl

@[simp] theorem length_toList (r : Registry kind α) : r.toList.length = r.size := rfl

theorem register_of_isFull {r : Registry kind α} (full : r.isFull) (a : α) :
    r.register a = (.error (.capacityExhausted kind), r) := by
  simp [register, full]

theorem register_of_not_isFull {r : Registry kind α} (room : ¬ r.isFull) (a : α) :
    r.register a =
      (.ok r.nextHandle, { r with entries := r.entries.push a, allocated := r.allocated + 1 }) := by
  simp [register, room]

theorem size_lt_of_not_isFull {r : Registry kind α} (room : ¬ r.isFull) : r.size < UInt32.size := by
  simp only [isFull, Bool.or_eq_true, decide_eq_true_eq, not_or, Nat.not_le] at room
  exact room.1

@[simp] theorem toList_push (r : Registry kind α) (a : α) (allocated : Nat) :
    ({ r with entries := r.entries.push a, allocated := allocated } : Registry kind α).toList =
      r.toList ++ [a] := by
  simp [toList]

theorem index_nextHandle {r : Registry kind α} (room : ¬ r.isFull) :
    r.nextHandle.index.toNat = r.size :=
  UInt32.toNat_ofNat_of_lt' (size_lt_of_not_isFull room)

/-- A handle of the current generation reaches the object at its index. -/
theorem get_eq_ok_iff {r : Registry kind α} {h : Handle kind} {a : α} :
    r.get h = .ok a ↔ h.generation = r.generation ∧ r.toList[h.index.toNat]? = some a := by
  unfold get
  split
  · next live =>
    have bound : h.index.toNat < r.entries.size := live.2
    have entry : r.toList[h.index.toNat]? = some r.entries[h.index.toNat] := by simp [toList, bound]
    rw [entry]
    exact ⟨fun found => ⟨live.1, by cases found; rfl⟩, fun found => by cases found.2; rfl⟩
  · next stale =>
    simp only [reduceCtorEq, toList, Array.getElem?_toList, false_iff, not_and]
    intro generation found
    exact stale ⟨generation, (Array.getElem?_eq_some_iff.mp found).1⟩

theorem get_of_resolves {r : Registry kind α} {h : Handle kind} (live : r.Resolves h) :
    ∃ a, r.get h = .ok a := by
  simp [get, live]

theorem get_of_not_resolves {r : Registry kind α} {h : Handle kind} (stale : ¬ r.Resolves h) :
    r.get h = .error (.staleHandle kind) := by
  simp [get, stale]

theorem modify_of_not_resolves {r : Registry kind α} {h : Handle kind} (stale : ¬ r.Resolves h)
    (f : α → Outcome β × α) : r.modify h f = (.error (.staleHandle kind), r) := by
  simp [modify, stale]

/-- An operation in place changes at most the one object that it reaches. -/
theorem modify_of_get {r : Registry kind α} {h : Handle kind} {a : α} (found : r.get h = .ok a)
    (f : α → Outcome β × α) :
    r.modify h f =
      ((f a).1, { r with entries := r.entries.setIfInBounds h.index.toNat (f a).2 }) := by
  unfold get at found
  split at found
  · next live =>
    have bound : h.index.toNat < r.entries.size := live.2
    cases found
    simp [modify, live, Array.setIfInBounds, bound]
  · simp at found

@[simp] theorem toList_setIfInBounds (r : Registry kind α) (i : Nat) (a : α) :
    ({ r with entries := r.entries.setIfInBounds i a } : Registry kind α).toList =
      r.toList.set i a := by
  simp [toList]

theorem get_nextHandle {r : Registry kind α} (room : ¬ r.isFull) (a : α) :
    (r.register a).2.get r.nextHandle = .ok a := by
  rw [get_eq_ok_iff, index_nextHandle room, register_of_not_isFull room]
  exact ⟨rfl, by simp [← length_toList]⟩

/-- A registered object leaves the earlier ones where they are. -/
theorem get_register_of_get {r : Registry kind α} {h : Handle kind} {a : α}
    (found : r.get h = .ok a) (b : α) : (r.register b).2.get h = .ok a := by
  by_cases full : r.isFull
  · rw [register_of_isFull full]
    exact found
  · obtain ⟨generation, entry⟩ := get_eq_ok_iff.mp found
    rw [register_of_not_isFull full, get_eq_ok_iff, toList_push]
    obtain ⟨bound, _⟩ := List.getElem?_eq_some_iff.mp entry
    exact ⟨generation, by rw [List.getElem?_append_left bound, entry]⟩

theorem get_modify_self {r : Registry kind α} {h : Handle kind} {a : α} (found : r.get h = .ok a)
    (f : α → Outcome β × α) : (r.modify h f).2.get h = .ok (f a).2 := by
  obtain ⟨generation, entry⟩ := get_eq_ok_iff.mp found
  rw [modify_of_get found, get_eq_ok_iff, toList_setIfInBounds]
  obtain ⟨bound, _⟩ := List.getElem?_eq_some_iff.mp entry
  exact ⟨generation, List.getElem?_set_self bound⟩

/-- Two handles of live objects that differ have different indexes. -/
theorem get_modify_of_ne {r : Registry kind α} {h g : Handle kind} {a : α} (found : r.get h = .ok a)
    (other : g ≠ h) (f : α → Outcome β × α) : (r.modify g f).2.get h = .ok a := by
  by_cases live : r.Resolves g
  · obtain ⟨b, reached⟩ := get_of_resolves live
    obtain ⟨generation, entry⟩ := get_eq_ok_iff.mp found
    have apart : g.index.toNat ≠ h.index.toNat := fun same =>
      other (Handle.ext (UInt32.toNat_inj.mp same) (live.1.trans generation.symm))
    rw [modify_of_get reached, get_eq_ok_iff, toList_setIfInBounds, List.getElem?_set_ne apart]
    exact ⟨generation, entry⟩
  · rw [modify_of_not_resolves live]
    exact found

/-- An operation on the object that was just registered leaves the log as if its result had been
registered at once. -/
theorem modify_register {r : Registry kind α} (room : ¬ r.isFull) (a : α) (f : α → Outcome β × α) :
    (r.register a).2.modify r.nextHandle f = ((f a).1, (r.register (f a).2).2) := by
  rw [modify_of_get (get_nextHandle room a), index_nextHandle room]
  simp [register_of_not_isFull room, size, Array.setIfInBounds, Array.set_push]

theorem modify_of_unchanged {r : Registry kind α} {h : Handle kind} {a : α} (found : r.get h = .ok a)
    {f : α → Outcome β × α} (same : (f a).2 = a) : r.modify h f = ((f a).1, r) := by
  have entries : r.entries.setIfInBounds h.index.toNat a = r.entries := by
    obtain ⟨bound, rfl⟩ := List.getElem?_eq_some_iff.mp (get_eq_ok_iff.mp found).2
    simp [toList, Array.setIfInBounds]
  rw [modify_of_get found, same, entries]

/-- An operation that changes nothing when it fails leaves the log as it was when it fails. -/
theorem modify_of_error {r : Registry kind α} {h : Handle kind} {f : α → Outcome β × α}
    (atomic : ∀ a e, (f a).1 = .error e → (f a).2 = a) {e : RuntimeError}
    (failed : (r.modify h f).1 = .error e) : (r.modify h f).2 = r := by
  by_cases live : r.Resolves h
  · obtain ⟨a, found⟩ := get_of_resolves live
    rw [modify_of_get found] at failed
    rw [modify_of_unchanged found (atomic a e failed)]
  · rw [modify_of_not_resolves live]

@[simp] theorem generation_register (r : Registry kind α) (a : α) :
    (r.register a).2.generation = r.generation := by
  unfold register
  split <;> rfl

@[simp] theorem generation_modify (r : Registry kind α) (h : Handle kind) (f : α → Outcome β × α) :
    (r.modify h f).2.generation = r.generation := by
  unfold modify
  split <;> rfl

@[simp] theorem size_modify (r : Registry kind α) (h : Handle kind) (f : α → Outcome β × α) :
    (r.modify h f).2.size = r.size := by
  unfold modify
  split
  · next live =>
    have bound : h.index.toNat < r.entries.size := live.2
    exact Array.size_set bound
  · rfl

@[simp] theorem allocated_modify (r : Registry kind α) (h : Handle kind) (f : α → Outcome β × α) :
    (r.modify h f).2.allocated = r.allocated := by
  unfold modify
  split <;> rfl

@[simp] theorem releases_modify (r : Registry kind α) (h : Handle kind) (f : α → Outcome β × α) :
    (r.modify h f).2.releases = r.releases := by
  unfold modify
  split <;> rfl

@[simp] theorem release_fst (r : Registry kind α) : r.release.1 = r.toList := rfl

@[simp] theorem toList_release (r : Registry kind α) : r.release.2.toList = [] := rfl

@[simp] theorem generation_release (r : Registry kind α) :
    r.release.2.generation = r.generation + 1 := rfl

theorem releaseTimes_succ (r : Registry kind α) (n : Nat) :
    r.releaseTimes (n + 1) = (r.releaseTimes n).release.2 := by
  cases n with
  | zero => rfl
  | succ n => simp [releaseTimes, release, UInt32.ofNat_add, UInt32.add_assoc, Nat.add_assoc]

end Registry
end ScriptHost
