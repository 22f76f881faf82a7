import ScriptHost.Proofs.HeapOperations

/-! The life of one list, from its creation with waiting slots on. Whatever else happens on the heap,
the list is settled by the fills and appends that it accepted, and those settle what it accepts
next. -/
namespace ScriptHost.Heap

/-- What a list accepted: how many fills and appends, and all their values in order. -/
structure Filling where
  fills : Nat
  appends : Nat
  accepted : List Value

namespace Filling

def start : Filling := ⟨0, 0, []⟩

/-- Only a fill or append that succeeded on this very list counts. -/
def record (h : ListHandle) (f : Filling) : Event → Filling
  | ⟨.fillNext g v, .ok _⟩ => if g = h then ⟨f.fills + 1, f.appends, f.accepted ++ [v]⟩ else f
  | ⟨.append g v, .ok _⟩ => if g = h then ⟨f.fills, f.appends + 1, f.accepted ++ [v]⟩ else f
  | _ => f

def of (h : ListHandle) (events : List Event) : Filling := events.foldl (record h) start

/-- The state of a list of `capacity` slots that accepted just this. An append is accepted only
behind the last fill, so the values stand in the order of their arrival. -/
structure Shapes (f : Filling) (capacity : Nat) (l : ValueList) : Prop where
  items : l.items.toList = f.accepted
  pending : l.pending + f.fills = capacity
  length : l.length = capacity + f.appends
  count : f.accepted.length = f.fills + f.appends
  appends : l.pending = 0 ∨ f.appends = 0

variable {f : Filling} {capacity : Nat} {l : ValueList}

theorem shapes_start (capacity : Nat) : start.Shapes capacity ⟨#[], capacity, capacity⟩ := by
  constructor <;> simp [start]

theorem Shapes.wellFormed (shapes : f.Shapes capacity l) : l.WellFormed := by
  unfold ValueList.WellFormed
  have size : l.items.size = f.accepted.length := by rw [← shapes.items, Array.length_toList]
  have := shapes.pending
  have := shapes.length
  have := shapes.count
  omega

theorem Shapes.waiting_iff (shapes : f.Shapes capacity l) : l.pending ≠ 0 ↔ f.fills < capacity := by
  have := shapes.pending
  omega

variable {h : ListHandle}

theorem fills_le_record (f : Filling) (e : Event) : f.fills ≤ (f.record h e).fills := by
  unfold record
  split
  · split <;> simp
  · split <;> simp
  · exact Nat.le_refl _

theorem fills_le_foldl (f : Filling) (events : List Event) :
    f.fills ≤ (events.foldl (record h) f).fills := by
  induction events generalizing f with
  | nil => exact Nat.le_refl _
  | cons e rest ih => exact Nat.le_trans (fills_le_record f e) (ih _)

theorem Shapes.fillNext (shapes : f.Shapes capacity l) (v : Value) :
    (f.record h ⟨.fillNext h v, (l.fillNext v).1.map fun _ => .done⟩).Shapes capacity
      (l.fillNext v).2 := by
  by_cases ready : l.pending = 0
  · rw [ValueList.fillNext_of_ready ready]
    exact shapes
  · have pending := shapes.pending
    have count := shapes.count
    rw [ValueList.fillNext_of_pending ready]
    simp only [record, Except.map, if_true]
    constructor
    · simp [shapes.items]
    · simp only
      omega
    · exact shapes.length
    · simp only [List.length_append, List.length_singleton]
      omega
    · exact .inr (shapes.appends.resolve_left ready)

theorem Shapes.append (shapes : f.Shapes capacity l) (v : Value) :
    (f.record h ⟨.append h v, (l.append v).1.map fun _ => .done⟩).Shapes capacity
      (l.append v).2 := by
  by_cases ready : l.pending = 0
  · have length := shapes.length
    have count := shapes.count
    rw [ValueList.append_of_ready ready]
    simp only [record, Except.map, if_true]
    constructor
    · simp [shapes.items]
    · exact shapes.pending
    · simp only
      omega
    · simp only [List.length_append, List.length_singleton]
      omega
    · exact .inl ready
  · rw [ValueList.append_of_pending ready]
    exact shapes

theorem record_of_elsewhere {op : Operation} (elsewhere : ∀ g f, op.edit? = some (g, f) → g ≠ h)
    (result : Outcome Answer) : f.record h ⟨op, result⟩ = f := by
  cases op with
  | fillNext g v | append g v =>
    have other := elsewhere g _ rfl
    cases result <;> simp [record, other]
  | _ => rfl

end Filling

variable {heap start : Heap} {h : ListHandle} {l : ValueList}

theorem Grown.get_of_get {kind : ObjectKind} {α : Type} {result : Outcome Answer}
    {log next : Registry kind α} (grown : Grown result log next) {h : Handle kind} {a : α}
    (found : log.get h = .ok a) : next.get h = .ok a := by
  cases grown with
  | same silent => exact found
  | added b room issued => exact Registry.get_register_of_get found b

/-- An operation that neither releases lists nor edits this one leaves it as it is. -/
theorem list_of_elsewhere (found : heap.list h = .ok l) {op : Operation}
    (kept : op.releases .list = false) (elsewhere : ∀ g f, op.edit? = some (g, f) → g ≠ h) :
    (heap.perform op).2.list h = .ok l := by
  cases edits : op.edit? with
  | none => exact (lists_grown heap op kept edits).get_of_get found
  | some edit =>
    rw [perform_of_edit edits]
    exact Registry.get_modify_of_ne found (elsewhere edit.1 edit.2 edits) edit.2

theorem list_of_edit (found : heap.list h = .ok l) {op : Operation}
    {f : ValueList → Outcome Unit × ValueList} (edits : op.edit? = some (h, f)) :
    (heap.perform op).1 = ((f l).1.map fun _ => .done) ∧
      (heap.perform op).2.list h = .ok (f l).2 := by
  rw [perform_of_edit edits]
  refine ⟨?_, Registry.get_modify_self found f⟩
  rw [Registry.modify_of_get found]

namespace Filling

variable {f : Filling} {capacity : Nat}

theorem shapes_perform (shapes : f.Shapes capacity l) (found : heap.list h = .ok l) (op : Operation)
    (kept : op.releases .list = false) :
    ∃ next, (heap.perform op).2.list h = .ok next ∧
      (f.record h ⟨op, (heap.perform op).1⟩).Shapes capacity next := by
  by_cases here : ∃ edit, op.edit? = some (h, edit)
  · obtain ⟨edit, edits⟩ := here
    obtain ⟨result, edited⟩ := list_of_edit found edits
    refine ⟨_, edited, ?_⟩
    rw [result]
    cases op with
    | fillNext g v => cases edits; exact shapes.fillNext v
    | append g v => cases edits; exact shapes.append v
    | _ => cases edits
  · have elsewhere : ∀ g edit, op.edit? = some (g, edit) → g ≠ h := by
      rintro g edit edits rfl
      exact here ⟨edit, edits⟩
    refine ⟨l, list_of_elsewhere found kept elsewhere, ?_⟩
    rw [record_of_elsewhere elsewhere]
    exact shapes

theorem shapes_after (shapes : f.Shapes capacity l) (found : heap.list h = .ok l)
    (ops : List Operation) (kept : ∀ op ∈ ops, op.releases .list = false) :
    ∃ next, (heap.after ops).list h = .ok next ∧
      ((heap.events ops).foldl (record h) f).Shapes capacity next := by
  induction ops generalizing heap l f with
  | nil => exact ⟨l, found, shapes⟩
  | cons op rest ih =>
    obtain ⟨next, reached, shaped⟩ := shapes_perform shapes found op (kept op List.mem_cons_self)
    exact ih shaped reached fun later member => kept later (List.mem_cons_of_mem _ member)

end Filling

theorem list_of_newList {capacity : Nat} (made : heap.newList capacity = (.ok h, start)) :
    start.list h = .ok ⟨#[], capacity, capacity⟩ := by
  rcases heap.newList_cases capacity with refused | ⟨room, registered⟩
  · rw [refused] at made
    cases made
  · rw [registered] at made
    cases made
    exact Registry.get_nextHandle room _

theorem listState_eq_ready_iff (found : heap.list h = .ok l) :
    heap.listState h = .ok .ready ↔ l.pending = 0 := by
  have state : heap.listState h = .ok l.state := by
    rw [listState, found]
    rfl
  rw [state, ValueList.state]
  by_cases ready : l.pending = 0 <;> simp [ready]

variable {f : Filling} {capacity : Nat}

theorem fillNext_accepted_iff (shapes : f.Shapes capacity l) (found : heap.list h = .ok l)
    (v : Value) : (heap.fillNext h v).1 = .ok () ↔ f.fills < capacity := by
  rw [fillNext, modifyList_fst found, ← shapes.waiting_iff]
  by_cases ready : l.pending = 0
  · simp [ValueList.fillNext_of_ready ready, ready]
  · simp [ValueList.fillNext_of_pending ready, ready]

theorem fillNext_of_full (shapes : f.Shapes capacity l) (found : heap.list h = .ok l)
    (full : ¬ f.fills < capacity) (v : Value) :
    heap.fillNext h v = (.error (.initOverflow (capacity + f.appends)), heap) := by
  have ready : l.pending = 0 := Decidable.not_not.mp (mt shapes.waiting_iff.mp full)
  have refused := ValueList.fillNext_of_ready ready v
  rw [fillNext, modifyList_of_unchanged found (by rw [refused]), refused, shapes.length]

theorem append_accepted_iff (shapes : f.Shapes capacity l) (found : heap.list h = .ok l)
    (v : Value) : (heap.append h v).1 = .ok () ↔ f.fills = capacity := by
  have pending := shapes.pending
  rw [append, modifyList_fst found]
  by_cases ready : l.pending = 0
  · simp only [ValueList.append_of_ready ready, true_iff]
    omega
  · simp only [ValueList.append_of_pending ready, reduceCtorEq, false_iff]
    omega

/-- Before the last fill a list has no appends, so its length is still the one it was made with. -/
theorem append_of_unfilled (shapes : f.Shapes capacity l) (found : heap.list h = .ok l)
    (unfilled : f.fills ≠ capacity) (v : Value) :
    heap.append h v = (.error (.initIncomplete capacity (capacity - f.fills)), heap) := by
  have pending := shapes.pending
  have waiting : l.pending ≠ 0 := by omega
  have length : l.length = capacity := by
    rw [shapes.length, shapes.appends.resolve_left waiting, Nat.add_zero]
  have missing : l.pending = capacity - f.fills := by omega
  have refused := ValueList.append_of_pending waiting v
  rw [append, modifyList_of_unchanged found (by rw [refused]), refused, length, missing]

/-- A ready list stays ready. -/
theorem listState_after (shapes : f.Shapes capacity l) (found : heap.list h = .ok l)
    (ready : heap.listState h = .ok .ready) (later : List Operation)
    (kept : ∀ op ∈ later, op.releases .list = false) :
    (heap.after later).listState h = .ok .ready := by
  obtain ⟨next, reached, shaped⟩ := Filling.shapes_after shapes found later kept
  have before := shapes.pending
  have behind := shaped.pending
  have more := f.fills_le_foldl (h := h) (heap.events later)
  rw [listState_eq_ready_iff found] at ready
  rw [listState_eq_ready_iff reached]
  omega

/-- A list that was made with waiting slots, behind any operations but a release of the lists: its
items are the accepted values, it takes fills as long as slots wait and appends from then on, and
what it refuses changes nothing. -/
theorem newList_settled_by_accepted (made : heap.newList capacity = (.ok h, start))
    (ops : List Operation) (kept : ∀ op ∈ ops, op.releases .list = false) :
    let now := start.after ops
    let f := Filling.of h (start.events ops)
    (∃ l, now.list h = .ok l ∧ l.items.toList = f.accepted ∧ l.pending + f.fills = capacity ∧
      l.length = capacity + f.appends ∧ l.items.size + l.pending = l.length ∧
      (now.listState h = .ok .ready ↔ l.pending = 0)) ∧
    (∀ v, (now.fillNext h v).1 = .ok () ↔ f.fills < capacity) ∧
    (∀ v, ¬ f.fills < capacity →
      now.fillNext h v = (.error (.initOverflow (capacity + f.appends)), now)) ∧
    (∀ v, (now.append h v).1 = .ok () ↔ f.fills = capacity) ∧
    (∀ v, f.fills ≠ capacity →
      now.append h v = (.error (.initIncomplete capacity (capacity - f.fills)), now)) ∧
    (now.listState h = .ok .ready → ∀ later : List Operation,
      (∀ op ∈ later, op.releases .list = false) → (now.after later).listState h = .ok .ready) := by
  intro now f
  obtain ⟨l, found, shapes⟩ : ∃ l, now.list h = .ok l ∧ f.Shapes capacity l :=
    Filling.shapes_after (Filling.shapes_start capacity) (list_of_newList made) ops kept
  exact ⟨⟨l, found, shapes.items, shapes.pending, shapes.length, shapes.wellFormed,
      listState_eq_ready_iff found⟩,
    fillNext_accepted_iff shapes found, fun v full => fillNext_of_full shapes found full v,
    append_accepted_iff shapes found, fun v unfilled => append_of_unfilled shapes found unfilled v,
    listState_after shapes found⟩

theorem newList_settled_by_accepted_once :
    let start := ((empty .addressable none).newList 2).2
    let h : ListHandle := ⟨0, 0⟩
    let ops : List Operation := [.append h (.int 7), .fillNext h (.int 1), .listOfValues [.bool true],
      .fillNext h (.int 2), .fillNext h (.int 7), .append h (.int 3), .listGet h 9]
    (empty .addressable none).newList 2 = (.ok h, start) ∧ (∀ op ∈ ops, op.releases .list = false) ∧
      ∃ l, (start.after ops).list h = .ok l ∧ l.items.toList = [.int 1, .int 2, .int 3] := by
  intro start h ops
  have made : (empty .addressable none).newList 2 = (.ok h, start) := rfl
  have kept : ∀ op ∈ ops, op.releases .list = false := by simp [ops, Operation.releases]
  obtain ⟨⟨l, found, items, _⟩, _⟩ := newList_settled_by_accepted made ops kept
  have accepted : (Filling.of h (start.events ops)).accepted = [.int 1, .int 2, .int 3] := by decide +kernel
  exact ⟨made, kept, l, found, items.trans accepted⟩

end ScriptHost.Heap
