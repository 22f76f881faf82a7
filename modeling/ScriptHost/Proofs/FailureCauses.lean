import ScriptHost.Heap.Lists
import ScriptHost.Proofs.UnfailingConsole

/-! Why operations fail. An operation on the heap, the decoding of a raw value and the text of a value
fail for causes inside the program; only the console fails for a cause outside. -/
namespace ScriptHost

open Utf8 (Bytes)

/-- The outcome is no failure of the console. -/
def Internal {α : Type} (result : Outcome α) : Prop := ∀ reason, result ≠ .error (.io reason)

namespace Internal

variable {α β : Type} {result : Outcome α}

theorem ok (a : α) : Internal (.ok a) := by
  rintro reason ⟨⟩

theorem error {e : RuntimeError} (internal : Internal result) (failed : result = .error e) :
    Internal (.error e : Outcome β) := by
  rintro reason ⟨⟩
  exact internal reason failed

theorem map (internal : Internal result) (f : α → β) : Internal (result.map f) := by
  cases result with
  | error e => exact internal.error rfl
  | ok a => exact ok (f a)

theorem bind {f : α → Outcome β} (internal : Internal result) (next : ∀ a, Internal (f a)) :
    Internal (result >>= f) := by
  cases result with
  | error e => exact internal.error rfl
  | ok a => exact next a

end Internal

namespace Registry

variable {kind : ObjectKind} {α β : Type} (r : Registry kind α) (h : Handle kind)

theorem internal_get : Internal (r.get h) := by
  unfold get
  split
  · exact .ok _
  · rintro reason ⟨⟩

theorem internal_register (a : α) : Internal (r.register a).1 := by
  unfold register
  split
  · rintro reason ⟨⟩
  · exact .ok _

theorem internal_modify {f : α → Outcome β × α} (edit : ∀ a, Internal (f a).1) :
    Internal (r.modify h f).1 := by
  unfold modify
  split
  · exact edit _
  · rintro reason ⟨⟩

end Registry

namespace ValueList

variable (l : ValueList)

theorem internal_checkReady : Internal l.checkReady := by
  unfold checkReady
  split
  · exact .ok _
  · rintro reason ⟨⟩

theorem internal_fillNext (v : Value) : Internal (l.fillNext v).1 := by
  unfold fillNext
  split
  · rintro reason ⟨⟩
  · exact .ok _

theorem internal_append (v : Value) : Internal (l.append v).1 := by
  have ready := l.internal_checkReady
  unfold append
  split
  · next e failed => exact ready.error failed
  · exact .ok _

theorem internal_get (index : Int64) : Internal (l.get index) := by
  apply l.internal_checkReady.bind
  intro _
  dsimp only
  split
  · rintro reason ⟨⟩
  · split
    · exact .ok _
    · rintro reason ⟨⟩

theorem internal_range (start stop : Int64) : Internal (l.range start stop) := by
  apply l.internal_checkReady.bind
  intro _
  split
  · rintro reason ⟨⟩
  · split
    · rintro reason ⟨⟩
    · split
      · rintro reason ⟨⟩
      · exact .ok _

end ValueList

namespace Heap

variable (heap : Heap)

theorem internal_createString (bytes : Bytes) : Internal (heap.createString bytes).1 :=
  heap.strings.internal_register _

theorem internal_joined (a b : StringHandle) : Internal (heap.joined a b) := by
  apply (heap.strings.internal_get a).bind
  intro left
  apply (heap.strings.internal_get b).bind
  intro right
  exact .ok _

theorem internal_concatStrings (a b : StringHandle) : Internal (heap.concatStrings a b).1 := by
  have joined := heap.internal_joined a b
  unfold concatStrings
  split
  · next e failed => exact joined.error failed
  · exact heap.strings.internal_register _

theorem internal_stringBytes (h : StringHandle) : Internal (heap.stringBytes h) :=
  (heap.strings.internal_get h).map _

theorem internal_stringUntilZero (h : StringHandle) : Internal (heap.stringUntilZero h) :=
  (heap.strings.internal_get h).map _

theorem internal_newList (capacity : Nat) : Internal (heap.newList capacity).1 := by
  rcases heap.newList_cases capacity with refused | ⟨_, made⟩
  · rw [refused]
    rintro reason ⟨⟩
  · rw [made]
    exact .ok _

theorem internal_newListChecked (capacity : Int64) : Internal (heap.newListChecked capacity).1 := by
  unfold newListChecked
  split
  · rintro reason ⟨⟩
  · exact heap.internal_newList _

theorem internal_listOfValues (values : List Value) : Internal (heap.listOfValues values).1 := by
  rcases heap.listOfValues_cases values with refused | ⟨_, made⟩
  · rw [refused]
    rintro reason ⟨⟩
  · rw [made]
    exact .ok _

theorem internal_listSlice (h : ListHandle) (start stop : Int64) :
    Internal (heap.listSlice h start stop).1 := by
  have read : Internal (heap.listRange h start stop) :=
    (heap.lists.internal_get h).bind fun l => l.internal_range start stop
  cases ranged : heap.listRange h start stop with
  | error e =>
    rw [listSlice_of_error ranged]
    exact read.error ranged
  | ok values =>
    rw [listSlice_of_range ranged]
    exact heap.internal_listOfValues values

theorem internal_fillNext (h : ListHandle) (v : Value) : Internal (heap.fillNext h v).1 :=
  heap.lists.internal_modify h fun l => l.internal_fillNext v

theorem internal_append (h : ListHandle) (v : Value) : Internal (heap.append h v).1 :=
  heap.lists.internal_modify h fun l => l.internal_append v

theorem internal_listGet (h : ListHandle) (index : Int64) : Internal (heap.listGet h index) :=
  (heap.lists.internal_get h).bind fun l => l.internal_get index

theorem internal_listLength (h : ListHandle) : Internal (heap.listLength h) :=
  (heap.lists.internal_get h).map _

end Heap

namespace TypeTag

theorem internal_ofByte (b : UInt8) : Internal (ofByte b) := by
  unfold ofByte ofChar
  split
  · exact .ok _
  · rintro reason ⟨⟩

theorem internal_promptSuffix (tag : TypeTag) : Internal tag.promptSuffix := by
  cases tag <;> rintro reason ⟨⟩

theorem internal_defaultPrompt (tag : TypeTag) : Internal tag.defaultPrompt := by
  cases tag <;> rintro reason ⟨⟩

end TypeTag

theorem RawValue.internal_decode (raw : RawValue) : Internal raw.decode := by
  have known := TypeTag.internal_ofByte raw.tag
  unfold decode
  split
  · next e failed => exact known.error failed
  all_goals rintro reason ⟨⟩

theorem RawValue.internal_toItem (raw : RawValue) : Internal raw.toItem := by
  have known := TypeTag.internal_ofByte raw.tag
  unfold toItem
  split
  · next e failed => exact known.error failed
  · exact .ok _
  · exact raw.internal_decode.bind fun v => .ok _

theorem internal_itemText (heap : Heap) (tag : TypeTag) (v : Value) :
    Internal (itemText heap tag v) := by
  cases tag with
  | int | char =>
    apply Internal.bind (by cases v <;> rintro reason ⟨⟩)
    exact fun n => .ok _
  | float =>
    apply Internal.bind (by cases v <;> rintro reason ⟨⟩)
    exact fun x => .ok _
  | bool =>
    apply Internal.bind (by cases v <;> rintro reason ⟨⟩)
    exact fun b => .ok _
  | string =>
    apply Internal.bind (by cases v <;> rintro reason ⟨⟩)
    exact fun h => heap.internal_stringBytes h
  | none | list => rintro reason ⟨⟩

theorem internal_lineText (heap : Heap) (items : List (TypeTag × Value)) :
    Internal (lineText heap items) := by
  induction items with
  | nil => exact .ok _
  | cons item rest ih =>
    apply (internal_itemText heap item.1 item.2).bind
    intro text
    apply ih.bind
    intro others
    exact .ok _

theorem internal_parseToken (heap : Heap) (tag : TypeTag) (token : Bytes) :
    Internal (parseToken heap tag token).1 := by
  cases tag with
  | string => exact (heap.internal_createString token).map _
  | int | float | bool => exact .ok _
  | char | none | list => rintro reason ⟨⟩

theorem internal_mapM {α β : Type} {f : α → Outcome β} (each : ∀ a, Internal (f a)) (items : List α) :
    Internal (items.mapM f) := by
  induction items with
  | nil => exact .ok _
  | cons a rest ih =>
    rw [List.mapM_cons]
    exact (each a).bind fun b => ih.bind fun others => .ok _

/-- On an input of bytes only, and an output that does not fail, what can end a read is the end of the
bytes or a string without room. -/
theorem internal_askUntilValid (heap : Heap) {input : Input} {output : Output} (plain : input.Plain)
    (unfailing : output.Unfailing) (prompt suffix : Bytes) (tag : TypeTag) :
    Internal (askUntilValid heap input output prompt suffix tag).result := by
  fun_induction askUntilValid heap input output prompt suffix tag with
  | case1 heap input output e after failed =>
    rw [unfailing.writeAndFlush] at failed
    cases failed
  | case2 heap input output after written e rest read =>
    obtain ⟨rfl, _⟩ := Input.readToken_of_error plain.streams read
    rintro reason ⟨⟩
  | case3 heap input output after written token rest read e next parsed =>
    exact (internal_parseToken heap tag token).error (congrArg Prod.fst parsed)
  | case4 => exact .ok _
  | case5 heap input output after written token rest read next parsed e left discarded =>
    have remaining : rest.Plain := plain.of_suffix (Input.readToken_suffix read)
    obtain ⟨rfl, _⟩ := Input.discardLine_of_error remaining.streams discarded
    rintro reason ⟨⟩
  | case6 heap input output after written token rest read next parsed left discarded e full failed =>
    rw [unfailing.writeAndFlush] at written
    cases written
    rw [(unfailing.adding _ _).write] at failed
    cases failed
  | case7 heap input output after written token rest read next parsed left discarded noted note =>
    rename_i ih
    rw [unfailing.writeAndFlush] at written
    cases written
    rw [(unfailing.adding _ _).write] at note
    cases note
    have remaining : rest.Plain := plain.of_suffix (Input.readToken_suffix read)
    exact ih (remaining.of_suffix (Input.discardLine_suffix discarded)) ((unfailing.adding _ _).adding _ _)

theorem internal_readTyped (heap : Heap) {input : Input} {output : Output} (plain : input.Plain)
    (unfailing : output.Unfailing) (prompt : Bytes) (tag : TypeTag) :
    Internal (readTyped heap input output prompt tag).result := by
  have known := tag.internal_promptSuffix
  unfold readTyped
  split
  · next e failed => exact known.error failed
  · exact internal_askUntilValid heap plain unfailing prompt _ tag

end ScriptHost
