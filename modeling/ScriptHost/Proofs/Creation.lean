import ScriptHost.Proofs.Locality

/-! Which object an operation creates, as far as its arguments tell, and what becomes of the attempt:
the object is registered and its handle is the answer, or there is no room and nothing happens. An
operation that creates no object of a kind leaves the log of the kind alone, releases it, or edits one
list in place. -/
namespace ScriptHost.Heap

open Utf8 (Bytes)

/-- The token that a read of a string takes, once the prompt for it is written. -/
def wordRead? (input : Input) (output : Output) (prompt : Bytes) : Option Bytes :=
  match TypeTag.string.promptSuffix with
  | .error _ => none
  | .ok suffix =>
    match output.writeAndFlush [prompt, Utf8.ofString suffix], input.readToken with
    | (.ok (), _), (.ok token, _) => some token
    | _, _ => none

def stringToCreate? (heap : Heap) : Operation → Option PooledString
  | .createString bytes | .parseToken .string bytes => some (.ofBytes bytes)
  | .concatStrings a b => (heap.joined a b).toOption
  | .readTyped input output prompt .string => (wordRead? input output prompt).map .ofBytes
  | _ => none

def listToCreate? (heap : Heap) : Operation → Option ValueList
  | .newList capacity => some ⟨#[], capacity, capacity⟩
  | .newListChecked capacity =>
    if capacity.toInt < 0 then none else some ⟨#[], capacity.toInt.toNat, capacity.toInt.toNat⟩
  | .listOfValues values => some ⟨values.toArray, values.length, 0⟩
  | .listSlice h start stop =>
    (heap.listRange h start stop).toOption.map fun values => ⟨values.toArray, values.length, 0⟩
  | _ => none

variable {heap next : Heap} {op : Operation} {s : PooledString} {l : ValueList} {token : Bytes}
  {input : Input} {output : Output} {prompt : Bytes} {tag : TypeTag} {v : Value}

theorem eq_ok_of_toOption {α : Type} {result : Outcome α} {a : α} (some : result.toOption = some a) :
    result = .ok a := by
  cases result with
  | error e => cases some
  | ok b => cases some; rfl

/-! What a read answers with is of the type that it asked for. -/

theorem tag_of_parseToken (parsed : parseToken heap tag token = (.ok (some v), next)) :
    v.tag = tag := by
  cases tag with
  | string =>
    cases created : heap.createString token with
    | mk result made =>
      cases result with
      | error e => simp [parseToken, created, Except.map] at parsed
      | ok h =>
        simp only [parseToken, created, Except.map, Prod.mk.injEq, Except.ok.injEq,
          Option.some.injEq] at parsed
        rw [← parsed.1]
        rfl
  | int | float | bool =>
    simp only [parseToken, Prod.mk.injEq, Except.ok.injEq, Option.map_eq_some_iff] at parsed
    obtain ⟨⟨n, _, rfl⟩, _⟩ := parsed
    rfl
  | char | none | list => simp [parseToken] at parsed

theorem tag_of_askUntilValid (heap : Heap) (input : Input) (output : Output)
    (prompt suffix : Bytes) (tag : TypeTag)
    (valid : (askUntilValid heap input output prompt suffix tag).result = .ok v) : v.tag = tag := by
  fun_induction askUntilValid heap input output prompt suffix tag with
  | case1 | case2 | case3 | case5 | case6 => cases valid
  | case4 heap _ _ _ _ _ _ _ value _ parsed =>
    cases valid
    exact tag_of_parseToken parsed
  | case7 =>
    rename_i ih
    exact ih valid

theorem tag_of_readTyped (valid : (readTyped heap input output prompt tag).result = .ok v) :
    v.tag = tag := by
  unfold readTyped at valid
  split at valid
  · cases valid
  · exact tag_of_askUntilValid heap input output prompt _ tag valid

/-- Every read but one of a string leaves the heap as it was. -/
theorem heap_of_readTyped (other : tag ≠ .string) :
    (readTyped heap input output prompt tag).heap = heap := by
  obtain ⟨failed, succeeded⟩ := readTyped_heap heap input output prompt tag
  cases result : (readTyped heap input output prompt tag).result with
  | error e => exact failed e result
  | ok v =>
    rcases succeeded v result with ⟨token, h, _, rfl⟩ | ⟨same, _⟩
    · exact absurd (tag_of_readTyped result).symm other
    · exact same

/-! The creation of strings. -/

theorem wordRead?_eq_some_iff :
    wordRead? input output prompt = some token ↔
      ∃ suffix out rest, TypeTag.string.promptSuffix = .ok suffix ∧
        output.writeAndFlush [prompt, Utf8.ofString suffix] = (.ok (), out) ∧
        input.readToken = (.ok token, rest) := by
  constructor
  · intro word
    unfold wordRead? at word
    split at word
    · cases word
    · next suffix known =>
      split at word
      · next out same rest written read =>
        cases word
        exact ⟨suffix, out, rest, known, written, read⟩
      · cases word
  · rintro ⟨suffix, out, rest, known, written, read⟩
    simp only [wordRead?, known, written, read]

theorem stringToCreate?_readTyped
    (makes : heap.stringToCreate? (.readTyped input output prompt tag) = some s) :
    tag = .string ∧ ∃ token, wordRead? input output prompt = some token ∧ s = .ofBytes token := by
  cases tag with
  | string =>
    obtain ⟨token, word, rfl⟩ := Option.map_eq_some_iff.mp makes
    exact ⟨rfl, token, word, rfl⟩
  | int | float | bool | char | none | list => cases makes

theorem stringToCreate?_parseToken (makes : heap.stringToCreate? (.parseToken tag token) = some s) :
    tag = .string ∧ s = .ofBytes token := by
  cases tag with
  | string =>
    cases makes
    exact ⟨rfl, rfl⟩
  | int | float | bool | char | none | list => cases makes

/-- Without room an operation that would create a string fails for that reason. -/
theorem perform_of_full_strings (makes : heap.stringToCreate? op = some s)
    (full : heap.strings.isFull) :
    heap.perform op = (.error (.capacityExhausted .string), heap) := by
  have refused := createString_of_isFull full
  cases op with
  | createString bytes =>
    rw [perform, refused]
    rfl
  | concatStrings a b =>
    rw [perform, concatStrings_of_isFull (eq_ok_of_toOption makes) full]
    rfl
  | parseToken tag token =>
    obtain ⟨rfl, _⟩ := stringToCreate?_parseToken makes
    simp only [perform, ScriptHost.parseToken, refused]
    rfl
  | readTyped input output prompt tag =>
    obtain ⟨rfl, token, word, _⟩ := stringToCreate?_readTyped makes
    obtain ⟨suffix, out, rest, known, written, read⟩ := wordRead?_eq_some_iff.mp word
    have parsed : ScriptHost.parseToken heap .string token =
        (.error (.capacityExhausted .string), heap) := by
      simp only [ScriptHost.parseToken, refused]
      rfl
    simp only [perform, readTyped_of_refused known written read parsed]
    rfl
  | _ => cases makes

theorem perform_of_room_strings (makes : heap.stringToCreate? op = some s)
    (room : ¬ heap.strings.isFull) :
    ∃ a, heap.perform op = (.ok a, { heap with strings := (heap.strings.register s).2 }) ∧
      a.issued? .string = some heap.strings.nextHandle := by
  have created := createString_of_not_isFull room
  cases op with
  | createString bytes =>
    cases makes
    refine ⟨.newString heap.strings.nextHandle, ?_, rfl⟩
    rw [perform, created]
    rfl
  | concatStrings a b =>
    refine ⟨.newString heap.strings.nextHandle, ?_, rfl⟩
    rw [perform, concatStrings_of_not_isFull (eq_ok_of_toOption makes) room]
    rfl
  | parseToken tag token =>
    obtain ⟨rfl, rfl⟩ := stringToCreate?_parseToken makes
    refine ⟨.parsed (some (.string heap.strings.nextHandle)), ?_, rfl⟩
    simp only [perform, ScriptHost.parseToken, created]
    rfl
  | readTyped input output prompt tag =>
    obtain ⟨rfl, token, word, rfl⟩ := stringToCreate?_readTyped makes
    obtain ⟨suffix, out, rest, known, written, read⟩ := wordRead?_eq_some_iff.mp word
    have parsed : ScriptHost.parseToken heap .string token =
        (.ok (some (.string heap.strings.nextHandle)),
          { heap with strings := (heap.strings.register (.ofBytes token)).2 }) := by
      simp only [ScriptHost.parseToken, created]
      rfl
    refine ⟨.parsed (some (.string heap.strings.nextHandle)), ?_, rfl⟩
    simp only [perform, readTyped_of_fit known written read parsed]
    rfl
  | _ => cases makes

/-- A read of a string that succeeds took a token. -/
theorem exists_word_of_readTyped
    (valid : (readTyped heap input output prompt .string).result = .ok v) :
    ∃ token, wordRead? input output prompt = some token := by
  have known : TypeTag.string.promptSuffix = .ok " (expecting string): " := rfl
  simp only [readTyped, known] at valid
  rw [askUntilValid_eq] at valid
  cases written : output.writeAndFlush [prompt, Utf8.ofString " (expecting string): "] with
  | mk result out =>
    cases result with
    | error e => simp [written] at valid
    | ok done =>
      cases read : input.readToken with
      | mk result rest =>
        cases result with
        | error e => simp [written, read] at valid
        | ok token => exact ⟨token, wordRead?_eq_some_iff.mpr ⟨_, out, rest, known, written, read⟩⟩

theorem issues_string_of_parsed {outcome : Outcome (Option Value)} {h : StringHandle}
    (issued : Issues (outcome.map Answer.parsed) h) : outcome = .ok (some (.string h)) := by
  obtain ⟨a, parsed, answer⟩ := issued
  cases outcome with
  | error e => cases parsed
  | ok value =>
    cases parsed
    cases value with
    | none => cases answer
    | some v => cases v <;> cases answer; rfl

theorem issues_string_of_read {h : StringHandle}
    (issued : Issues (heap.perform (.readTyped input output prompt tag)).1 h) :
    (readTyped heap input output prompt tag).result = .ok (.string h) := by
  cases result : (readTyped heap input output prompt tag).result with
  | error e =>
    simp only [perform, answered, result] at issued
    exact absurd issued (not_issues_error e h)
  | ok v =>
    simp only [perform, answered, result] at issued
    have parsed : (.ok (some v) : Outcome (Option Value)) = .ok (some (.string h)) :=
      issues_string_of_parsed issued
    cases parsed
    rfl

/-- Only an operation that creates a string answers with the handle of one. -/
theorem silent_of_no_string (makes : heap.stringToCreate? op = none) (h : StringHandle) :
    ¬ Issues (heap.perform op).1 h := by
  cases op with
  | createString bytes => cases makes
  | concatStrings a b =>
    cases read : heap.joined a b with
    | error e =>
      rw [perform, concatStrings_of_error read]
      exact not_issues_error e h
    | ok joined => simp [stringToCreate?, read, Except.toOption] at makes
  | parseToken tag token =>
    intro issued
    have parsed : (ScriptHost.parseToken heap tag token).1 = .ok (some (.string h)) :=
      issues_string_of_parsed issued
    obtain rfl : .string = tag := tag_of_parseToken (Prod.ext parsed rfl)
    cases makes
  | readTyped input output prompt tag =>
    intro issued
    have valid := issues_string_of_read issued
    obtain rfl : .string = tag := tag_of_readTyped valid
    obtain ⟨token, word⟩ := exists_word_of_readTyped valid
    simp [stringToCreate?, word] at makes
  | releaseStrings | releaseLists | releaseAll | stats => exact not_issues_ok rfl h
  | _ => exact silent_of_fixed rfl h

/-- An operation that neither creates a string nor releases the strings leaves them alone. -/
theorem strings_of_no_string (makes : heap.stringToCreate? op = none)
    (kept : op.releases .string = false) : (heap.perform op).2.strings = heap.strings :=
  (strings_grown heap op kept).eq_of_silent (silent_of_no_string makes)

/-! The creation of lists. -/

theorem listToCreate?_newListChecked {capacity : Int64}
    (makes : heap.listToCreate? (.newListChecked capacity) = some l) :
    0 ≤ capacity.toInt ∧ l = ⟨#[], capacity.toInt.toNat, capacity.toInt.toNat⟩ := by
  simp only [listToCreate?] at makes
  split at makes
  · cases makes
  · next nonnegative =>
    cases makes
    exact ⟨Int.not_lt.mp nonnegative, rfl⟩

theorem listToCreate?_listSlice {h : ListHandle} {start stop : Int64}
    (makes : heap.listToCreate? (.listSlice h start stop) = some l) :
    ∃ values, heap.listRange h start stop = .ok values ∧ l = ⟨values.toArray, values.length, 0⟩ := by
  obtain ⟨values, read, rfl⟩ := Option.map_eq_some_iff.mp makes
  exact ⟨values, eq_ok_of_toOption read, rfl⟩

theorem exists_list_of_listRange {h : ListHandle} {start stop : Int64} {values : List Value}
    (read : heap.listRange h start stop = .ok values) :
    ∃ l, heap.list h = .ok l ∧ l.range start stop = .ok values := by
  cases found : heap.list h with
  | error e => simp [listRange, found, bind, Except.bind] at read
  | ok l =>
    simp only [listRange, found] at read
    exact ⟨l, rfl, read⟩

/-- An operation that would create a list fails, for one reason, if the log of lists or the memory has
no room for it. -/
theorem perform_of_no_room_lists (makes : heap.listToCreate? op = some l)
    (refused : heap.lists.isFull ∨ ¬ heap.allocator.grants l.length) :
    heap.perform op = (.error (.capacityExhausted .list), heap) := by
  have failed := newList_of_no_room refused
  cases op with
  | newList capacity =>
    cases makes
    rw [perform, failed]
    rfl
  | newListChecked capacity =>
    obtain ⟨nonnegative, rfl⟩ := listToCreate?_newListChecked makes
    rw [perform, newListChecked, if_neg (Int.not_lt.mpr nonnegative), failed]
    rfl
  | listOfValues values =>
    cases makes
    rw [perform, listOfValues_of_error failed]
    rfl
  | listSlice h start stop =>
    obtain ⟨values, read, rfl⟩ := listToCreate?_listSlice makes
    rw [perform, listSlice_of_range read, listOfValues_of_error failed]
    rfl
  | _ => cases makes

theorem perform_of_room_lists (makes : heap.listToCreate? op = some l)
    (granted : heap.allocator.grants l.length) (room : ¬ heap.lists.isFull) :
    heap.perform op =
      (.ok (.newList heap.lists.nextHandle), { heap with lists := (heap.lists.register l).2 }) := by
  cases op with
  | newList capacity =>
    cases makes
    rw [perform, newList_of_not_isFull granted room]
    rfl
  | newListChecked capacity =>
    obtain ⟨nonnegative, rfl⟩ := listToCreate?_newListChecked makes
    rw [perform, newListChecked, if_neg (Int.not_lt.mpr nonnegative), newList_of_not_isFull granted room]
    rfl
  | listOfValues values =>
    cases makes
    rw [perform, listOfValues_of_not_isFull granted room]
    rfl
  | listSlice h start stop =>
    obtain ⟨values, read, rfl⟩ := listToCreate?_listSlice makes
    rw [perform, listSlice_of_range read, listOfValues_of_not_isFull granted room]
    rfl
  | _ => cases makes

/-- An operation that would create a list finds no room for it, or creates it. -/
theorem perform_cases_of_list (makes : heap.listToCreate? op = some l) :
    heap.perform op = (.error (.capacityExhausted .list), heap) ∨
      ¬ heap.lists.isFull ∧ heap.perform op =
        (.ok (.newList heap.lists.nextHandle), { heap with lists := (heap.lists.register l).2 }) := by
  by_cases refused : heap.lists.isFull ∨ ¬ heap.allocator.grants l.length
  · exact .inl (perform_of_no_room_lists makes refused)
  · obtain ⟨room, unrefused⟩ := not_or.mp refused
    exact .inr ⟨room, perform_of_room_lists makes (Decidable.not_not.mp unrefused) room⟩

theorem silent_of_no_list (makes : heap.listToCreate? op = none) (h : ListHandle) :
    ¬ Issues (heap.perform op).1 h := by
  cases op with
  | newList capacity | listOfValues values => cases makes
  | newListChecked capacity =>
    simp only [listToCreate?] at makes
    split at makes
    · next negative =>
      rw [perform, newListChecked, if_pos negative]
      exact not_issues_error _ h
    · cases makes
  | listSlice g start stop =>
    cases read : heap.listRange g start stop with
    | error e =>
      rw [perform, listSlice_of_error read]
      exact not_issues_error e h
    | ok values => simp [listToCreate?, read, Except.toOption] at makes
  | fillNext g v | append g v => exact not_issues_map (fun _ => rfl) _ h
  | releaseStrings | releaseLists | releaseAll | stats => exact not_issues_ok rfl h
  | _ => exact silent_of_fixed rfl h

theorem lists_of_no_list (makes : heap.listToCreate? op = none) (kept : op.releases .list = false)
    (unedited : op.edit? = none) : (heap.perform op).2.lists = heap.lists :=
  (lists_grown heap op kept unedited).eq_of_silent (silent_of_no_list makes)

end ScriptHost.Heap
