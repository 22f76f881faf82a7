import ScriptHost.Proofs.HeapOperations

/-! Handles across releases. The generation of a log counts its releases up to multiples of 2^32,
so a handle is refused behind a release until the counter has come full circle. -/
namespace ScriptHost.Heap

variable {kind : ObjectKind} {heap : Heap}

/-- The generation in which the log of a kind issues handles. -/
def generation (heap : Heap) : ObjectKind → UInt32
  | .string => heap.strings.generation
  | .list => heap.lists.generation

def liveCount (heap : Heap) : ObjectKind → Nat
  | .string => heap.strings.size
  | .list => heap.lists.size

def Resolves (heap : Heap) (h : Handle kind) : Prop :=
  h.generation = heap.generation kind ∧ h.index.toNat < heap.liveCount kind

/-- The handles whose objects the operation looks at or edits. -/
def Operation.operands : (kind : ObjectKind) → Operation → List (Handle kind)
  | .string, .concatStrings a b => [a, b]
  | .string, .string h | .string, .stringBytes h | .string, .lossyText h
  | .string, .stringUntilZero h | .string, .writeItem _ .string (.string h) => [h]
  | .list, .fillNext h _ | .list, .append h _ | .list, .list h | .list, .listGet h _
  | .list, .listLength h | .list, .listState h | .list, .listValues h | .list, .listRange h _ _
  | .list, .listSlice h _ _ => [h]
  | _, _ => []

def releaseCount (kind : ObjectKind) (ops : List Operation) : Nat := ops.countP (·.releases kind)

theorem Grown.generation {α : Type} {result : Outcome Answer} {log next : Registry kind α}
    (grown : Grown result log next) : next.generation = log.generation := by
  cases grown with
  | same silent => rfl
  | added a room issued => exact Registry.generation_register log a

theorem generation_of_kept (op : Operation) (kept : op.releases kind = false) :
    (heap.perform op).2.generation kind = heap.generation kind := by
  cases kind with
  | string => exact (strings_grown heap op kept).generation
  | list =>
    cases edits : op.edit? with
    | none => exact (lists_grown heap op kept edits).generation
    | some edit =>
      rw [perform_of_edit edits]
      exact Registry.generation_modify heap.lists edit.1 edit.2

theorem generation_of_releases (op : Operation) (releases : op.releases kind) :
    (heap.perform op).2.generation kind = heap.generation kind + 1 := by
  cases kind with
  | string => rw [generation, strings_of_releases releases]; rfl
  | list => rw [generation, lists_of_releases releases]; rfl

theorem generation_after (heap : Heap) (ops : List Operation) :
    (heap.after ops).generation kind =
      heap.generation kind + UInt32.ofNat (releaseCount kind ops) := by
  induction ops generalizing heap with
  | nil => simp [after, releaseCount]
  | cons op rest ih =>
    rw [after, ih]
    cases releases : op.releases kind with
    | false => simp [generation_of_kept op releases, releaseCount, releases]
    | true =>
      rw [generation_of_releases op releases]
      simp only [releaseCount, List.countP_cons, releases, if_true, UInt32.ofNat_add]
      rw [UInt32.add_assoc, UInt32.add_comm 1]
      rfl

theorem Issues.unique {result : Outcome Answer} {h g : Handle kind} (first : Issues result h)
    (second : Issues result g) : h = g := by
  obtain ⟨a, rfl, issued⟩ := first
  rw [issues_ok_iff] at second
  exact Option.some.inj (issued.symm.trans second)

theorem Grown.generation_of_issues {α : Type} {result : Outcome Answer} {log next : Registry kind α}
    (grown : Grown result log next) {h : Handle kind} (issued : Issues result h) :
    h.generation = log.generation := by
  cases grown with
  | same silent => exact absurd issued (silent h)
  | added a room first => rw [issued.unique first]; rfl

/-- An operation that creates an object releases none, of either kind. -/
theorem kept_of_issues {op : Operation} {h : Handle kind} (issued : Issues (heap.perform op).1 h)
    (other : ObjectKind) : op.releases other = false := by
  cases op with
  | releaseStrings | releaseLists | releaseAll =>
    exact absurd issued (not_issues_ok (by cases kind <;> rfl) h)
  | _ => cases other <;> rfl

theorem edit?_of_issues {op : Operation} {h : Handle kind} (issued : Issues (heap.perform op).1 h) :
    op.edit? = none := by
  cases edits : op.edit? with
  | none => rfl
  | some edit =>
    rw [perform_of_edit edits] at issued
    exact absurd issued (not_issues_map (fun _ => by cases kind <;> rfl) _ h)

/-- A new object's handle is of the generation that the heap is in. -/
theorem generation_of_issues {op : Operation} {h : Handle kind}
    (issued : Issues (heap.perform op).1 h) : h.generation = heap.generation kind := by
  have kept := kept_of_issues issued kind
  cases kind with
  | string => exact (strings_grown heap op kept).generation_of_issues issued
  | list => exact (lists_grown heap op kept (edit?_of_issues issued)).generation_of_issues issued

theorem joined_of_stale {a b h : StringHandle} (gone : heap.string h = .error (.staleHandle .string))
    (operand : h = a ∨ h = b) : heap.joined a b = .error (.staleHandle .string) := by
  rcases operand with rfl | rfl
  · simp only [joined, gone]
    rfl
  · by_cases live : heap.strings.Resolves a
    · obtain ⟨s, found⟩ := Registry.get_of_resolves live
      have read : heap.string a = .ok s := found
      simp only [joined, read, gone]
      rfl
    · have lost : heap.string a = .error (.staleHandle .string) := Registry.get_of_not_resolves live
      simp only [joined, lost]
      rfl

theorem perform_of_stale_string {h : StringHandle}
    (gone : heap.string h = .error (.staleHandle .string)) {op : Operation}
    (operand : h ∈ op.operands .string) :
    heap.perform op = (.error (.staleHandle .string), heap) := by
  cases op with
  | concatStrings a b =>
    have either : h = a ∨ h = b := by simpa [Operation.operands] using operand
    rw [perform, concatStrings_of_error (joined_of_stale gone either)]
    rfl
  | string g | stringBytes g | lossyText g | stringUntilZero g =>
    cases List.mem_singleton.mp operand
    simp only [perform, looked, stringBytes, lossyText, stringUntilZero, gone]
    rfl
  | writeItem line tag value =>
    cases tag <;> cases value <;> simp only [Operation.operands, List.not_mem_nil] at operand
    cases List.mem_singleton.mp operand
    have unread : itemText heap .string (.string h) = .error (.staleHandle .string) := by
      change heap.stringBytes h = _
      rw [stringBytes, gone]
      rfl
    simp only [perform, looked, ScriptHost.writeItem, unread]
    rfl
  | _ => simp [Operation.operands] at operand

theorem perform_of_stale_list {h : ListHandle} (stale : ¬ heap.lists.Resolves h) {op : Operation}
    (operand : h ∈ op.operands .list) :
    heap.perform op = (.error (.staleHandle .list), heap) := by
  have gone : heap.list h = .error (.staleHandle .list) := Registry.get_of_not_resolves stale
  cases op with
  | fillNext g v | append g v =>
    cases List.mem_singleton.mp operand
    rw [perform_of_edit rfl, Registry.modify_of_not_resolves stale]
    rfl
  | list g | listGet g index | listLength g | listState g | listValues g | listRange g start stop =>
    cases List.mem_singleton.mp operand
    simp only [perform, looked, listGet, listLength, listState, listRange, gone]
    rfl
  | listSlice g start stop =>
    cases List.mem_singleton.mp operand
    simp only [perform, listSlice, listRange, gone]
    rfl
  | _ => simp [Operation.operands] at operand

/-- An operation on a handle that reaches nothing fails for that reason, and changes nothing. -/
theorem perform_of_stale {h : Handle kind} (stale : ¬ heap.Resolves h) {op : Operation}
    (operand : h ∈ op.operands kind) :
    heap.perform op = (.error (.staleHandle kind), heap) := by
  cases kind with
  | string => exact perform_of_stale_string (Registry.get_of_not_resolves stale) operand
  | list => exact perform_of_stale_list stale operand

/-- A handle that reaches an object can at least be looked at. -/
theorem exists_accepted {h : Handle kind} (live : heap.Resolves h) :
    ∃ op, h ∈ op.operands kind ∧ ∃ a, (heap.perform op).1 = .ok a := by
  cases kind with
  | string =>
    obtain ⟨s, found⟩ := Registry.get_of_resolves (r := heap.strings) live
    have read : heap.string h = .ok s := found
    exact ⟨.string h, List.mem_singleton.mpr rfl, .string s, by simp [perform, looked, read, Except.map]⟩
  | list =>
    obtain ⟨l, found⟩ := Registry.get_of_resolves (r := heap.lists) live
    have read : heap.list h = .ok l := found
    exact ⟨.list h, List.mem_singleton.mpr rfl, .list l, by simp [perform, looked, read, Except.map]⟩

theorem resolves_after_iff {source : Heap} {op : Operation} {h : Handle kind}
    (issued : Issues (source.perform op).1 h) (later : List Operation) :
    ((source.perform op).2.after later).Resolves h ↔
      UInt32.size ∣ releaseCount kind later ∧
        h.index.toNat < ((source.perform op).2.after later).liveCount kind := by
  rw [Resolves, generation_after, generation_of_kept op (kept_of_issues issued kind),
    generation_of_issues issued]
  refine and_congr_left fun _ => ?_
  rw [UInt32.left_eq_add, UInt32.ofNat_eq_iff_mod_eq_toNat, Nat.dvd_iff_mod_eq_zero]
  rfl

theorem after_replicate_releaseAll (heap : Heap) (n : Nat) :
    heap.after (List.replicate n .releaseAll) = heap.releaseAllTimes n := by
  induction n with
  | zero => rfl
  | succ n ih =>
    rw [List.replicate_succ', after_append, ih, releaseAllTimes_succ]
    rfl

theorem releaseCount_append (first later : List Operation) :
    releaseCount kind (first ++ later) = releaseCount kind first + releaseCount kind later :=
  List.countP_append

theorem releaseCount_replicate_releaseAll (n : Nat) :
    releaseCount kind (List.replicate n .releaseAll) = n := by
  cases kind <;> simp [releaseCount, List.countP_replicate, Operation.releases]

/-- The first string behind some releases has the generation that their number makes. -/
theorem stringBytes_behind_releases (unlimited : heap.strings.limit = none) {n : Nat}
    (some : n ≠ 0) {generation : UInt32}
    (current : generation = heap.strings.generation + UInt32.ofNat n) (bytes : Utf8.Bytes) :
    (heap.after (List.replicate n .releaseAll ++ [.createString bytes])).stringBytes
        ⟨0, generation⟩ =
      .ok (bytes.takeWhile (· != 0)) := by
  obtain ⟨m, rfl⟩ := Nat.exists_eq_succ_of_ne_zero some
  let released := heap.releaseAllTimes (m + 1)
  have room : ¬ released.strings.isFull := by
    simp [released, releaseAllTimes, Registry.releaseTimes, Registry.isFull, Registry.size, unlimited]
  have found : (released.strings.register (.ofBytes bytes)).2.get ⟨0, generation⟩ =
      .ok (.ofBytes bytes) := by
    rw [Registry.register_of_not_isFull room, Registry.get_eq_ok_iff, current]
    exact ⟨rfl, rfl⟩
  rw [after_append, after_replicate_releaseAll]
  change (released.perform (.createString bytes)).2.stringBytes ⟨0, generation⟩ = _
  rw [perform, createString_of_not_isFull room]
  change PooledString.bytes <$> (released.strings.register (.ofBytes bytes)).2.get _ = _
  rw [found]
  exact congrArg Except.ok (PooledString.bytes_ofBytes bytes)

/-- Every operation refuses a handle behind releases of its kind, but for one case: the number of
releases is a multiple of 2^32, and the place that the handle names is taken again. -/
theorem refused_iff_of_issued {source : Heap} {issuing : Operation} {h : Handle kind}
    (issued : Issues (source.perform issuing).1 h) (later : List Operation) :
    let heap := (source.perform issuing).2.after later
    (∀ op, h ∈ op.operands kind → heap.perform op = (.error (.staleHandle kind), heap)) ↔
      ¬ (UInt32.size ∣ releaseCount kind later ∧ h.index.toNat < heap.liveCount kind) := by
  intro heap
  rw [← resolves_after_iff issued later]
  constructor
  · intro refused live
    obtain ⟨op, operand, a, accepted⟩ := exists_accepted live
    rw [refused op operand] at accepted
    cases accepted
  · intro stale op operand
    exact perform_of_stale stale operand

theorem refused_iff_of_issued_once :
    let made := (empty .addressable none).perform (.createString [0x61])
    let heap := made.2.after [.releaseStrings, .createString [0x62]]
    Issues made.1 (⟨0, 0⟩ : StringHandle) ∧
      ∀ op, (⟨0, 0⟩ : StringHandle) ∈ op.operands .string →
        heap.perform op = (.error (.staleHandle .string), heap) := by
  intro made heap
  have issued : Issues made.1 (⟨0, 0⟩ : StringHandle) := ⟨_, rfl, rfl⟩
  refine ⟨issued, (refused_iff_of_issued issued [.releaseStrings, .createString [0x62]]).mpr ?_⟩
  decide

/-- After 2^32 releases the handle of a released string reaches a new string. -/
theorem accepted_after_full_turn :
    let made := (empty .addressable none).perform (.createString [0x61])
    let later := List.replicate UInt32.size .releaseAll ++ [.createString [0x62]]
    Issues made.1 (⟨0, 0⟩ : StringHandle) ∧ releaseCount .string later = UInt32.size ∧
      (made.2.after later).stringBytes ⟨0, 0⟩ = .ok [0x62] := by
  intro made later
  refine ⟨⟨_, rfl, rfl⟩, ?_, ?_⟩
  · rw [releaseCount_append, releaseCount_replicate_releaseAll]
    rfl
  · exact stringBytes_behind_releases rfl (by decide) (by decide) [0x62]

end ScriptHost.Heap
