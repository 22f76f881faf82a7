import Mathlib.Data.List.Forall2
import ScriptHost.Console.Print

/-! Printing, item by item and line by line. What an item adds to a line depends on neither the line nor the
other items, and an item without a text adds nothing. A line is written when all its items have their texts,
in one write, and the first item without a text keeps the whole line from the output. -/
namespace ScriptHost

open Utf8 (Bytes)

/-- The type of the values that print under a tag: under `c` integers, and none under `n` and `l`. -/
def TypeTag.printed? : TypeTag → Option TypeTag
  | .char => some .int
  | .none | .list => Option.none
  | tag => some tag

theorem TypeTag.eq_string_of_printed? {tag : TypeTag} (prints : tag.printed? = some .string) :
    tag = .string := by
  cases tag with
  | string => rfl
  | _ => cases prints

theorem TypeTag.printed?_eq_none {tag : TypeTag} (prints : tag.printed? = Option.none) :
    tag = .none ∨ tag = .list := by
  cases tag with
  | none => exact .inl rfl
  | list => exact .inr rfl
  | _ => cases prints

/-- Why an item has no text. A tag that prints nothing is to blame whatever the value is. -/
inductive ItemFault (heap : Heap) : TypeTag × Value → RuntimeError → Prop where
  | unknown {tag : TypeTag} (v : Value) (nothing : tag = .none ∨ tag = .list) :
      ItemFault heap (tag, v) (.unknownTag tag.letter)
  | mismatch {tag expected : TypeTag} {v : Value} (prints : tag.printed? = some expected)
      (other : v.tag ≠ expected) : ItemFault heap (tag, v) (.tagMismatch expected v.tag)
  | stale {h : StringHandle} (released : ¬ heap.strings.Resolves h) :
      ItemFault heap (.string, .string h) (.staleHandle .string)

/-- The text that an item adds to a line, whatever stands there. -/
def PrintsAs (heap : Heap) (item : TypeTag × Value) (text : Bytes) : Prop :=
  ∀ line, writeItem heap line item.1 item.2 = (.ok (), line ++ text)

/-- The line of some texts: a space behind each, and a line feed. -/
def lineOf (texts : List Bytes) : Bytes := texts.flatMap (· ++ [0x20]) ++ [0x0A]

theorem lineOf_cons (text : Bytes) (texts : List Bytes) :
    lineOf (text :: texts) = text ++ 0x20 :: lineOf texts := by
  simp [lineOf]

variable {heap : Heap} {item : TypeTag × Value} {items front : List (TypeTag × Value)} {text : Bytes}
  {texts : List Bytes} {e : RuntimeError}

theorem printsAs_iff : PrintsAs heap item text ↔ itemText heap item.1 item.2 = .ok text := by
  constructor
  · intro prints
    have alone := prints []
    cases made : itemText heap item.1 item.2 with
    | error e => simp [writeItem, made] at alone
    | ok own =>
      simp only [writeItem, made, List.nil_append, Prod.mk.injEq, true_and] at alone
      rw [alone]
  · intro made line
    rw [writeItem, made]

theorem writeItem_of_error (failed : itemText heap item.1 item.2 = .error e) (line : Bytes) :
    writeItem heap line item.1 item.2 = (.error e, line) := by
  rw [writeItem, failed]

theorem stringBytes_of_stale {h : StringHandle} (released : ¬ heap.strings.Resolves h) :
    heap.stringBytes h = .error (.staleHandle .string) := by
  rw [Heap.stringBytes, Heap.string, Registry.get_of_not_resolves released]
  rfl

theorem exists_stringBytes {h : StringHandle} (live : heap.strings.Resolves h) :
    ∃ text, heap.stringBytes h = .ok text := by
  obtain ⟨s, found⟩ := Registry.get_of_resolves live
  refine ⟨s.bytes, ?_⟩
  rw [Heap.stringBytes, Heap.string, found]
  rfl

theorem itemText_of_fault (fault : ItemFault heap item e) :
    itemText heap item.1 item.2 = .error e := by
  cases fault with
  | unknown v nothing =>
    rcases nothing with rfl | rfl <;> rfl
  | @mismatch tag expected v prints other =>
    cases tag <;> cases prints <;> cases v <;> first | rfl | exact absurd rfl other
  | stale released => exact stringBytes_of_stale released

theorem exists_text_of_tag {tag : TypeTag} {v : Value} (prints : tag.printed? = some v.tag)
    (live : ∀ h, v = .string h → heap.strings.Resolves h) : ∃ text, itemText heap tag v = .ok text := by
  cases v with
  | string h =>
    cases TypeTag.eq_string_of_printed? prints
    exact exists_stringBytes (live h rfl)
  | int n | float x | bool b | none | list h => cases tag <;> cases prints <;> exact ⟨_, rfl⟩

/-- An item has a text or a fault. -/
theorem exists_text_or_fault (heap : Heap) (item : TypeTag × Value) :
    (∃ text, PrintsAs heap item text) ∨ ∃ e, ItemFault heap item e := by
  obtain ⟨tag, v⟩ := item
  cases prints : tag.printed? with
  | none => exact .inr ⟨_, .unknown v (TypeTag.printed?_eq_none prints)⟩
  | some expected =>
    by_cases same : v.tag = expected
    · subst same
      by_cases live : ∀ h, v = .string h → heap.strings.Resolves h
      · obtain ⟨text, made⟩ := exists_text_of_tag prints live
        exact .inl ⟨text, printsAs_iff.mpr made⟩
      · obtain ⟨h, stale⟩ := not_forall.mp live
        obtain ⟨rfl, released⟩ := Classical.not_imp.mp stale
        cases TypeTag.eq_string_of_printed? prints
        exact .inr ⟨_, .stale released⟩
    · exact .inr ⟨_, .mismatch prints same⟩

/-- An item fails for its fault and no other. -/
theorem itemText_eq_error_iff : itemText heap item.1 item.2 = .error e ↔ ItemFault heap item e := by
  constructor
  · intro failed
    rcases exists_text_or_fault heap item with ⟨text, prints⟩ | ⟨cause, fault⟩
    · rw [printsAs_iff.mp prints] at failed
      cases failed
    · rw [itemText_of_fault fault, Except.error.injEq] at failed
      exact failed ▸ fault
  · exact itemText_of_fault

theorem writeItem_eq_error_iff (line : Bytes) :
    (writeItem heap line item.1 item.2).1 = .error e ↔ ItemFault heap item e := by
  rw [← itemText_eq_error_iff]
  cases made : itemText heap item.1 item.2 with
  | error cause => simp [writeItem, made]
  | ok text => simp [writeItem, made]

/-! Lines. -/

theorem lineText_of_texts (prints : List.Forall₂ (PrintsAs heap) items texts) :
    lineText heap items = .ok (lineOf texts) := by
  induction prints with
  | nil => rfl
  | cons first rest ih =>
    simp only [lineText, printsAs_iff.mp first, ih, lineOf_cons]
    rfl

theorem lineText_of_fault (rest : List (TypeTag × Value))
    (prints : ∀ earlier ∈ front, ∃ text, PrintsAs heap earlier text) (fault : ItemFault heap item e) :
    lineText heap (front ++ item :: rest) = .error e := by
  induction front with
  | nil =>
    simp only [List.nil_append, lineText, itemText_of_fault fault]
    rfl
  | cons first front ih =>
    obtain ⟨text, own⟩ := prints first List.mem_cons_self
    have others := ih fun earlier member => prints earlier (List.mem_cons_of_mem _ member)
    simp only [List.cons_append, lineText, printsAs_iff.mp own, others]
    rfl

/-- Everything in a list has an image, or there is a first one that has a fault instead. -/
theorem exists_images_or_first_fault {α β ε : Type} {image : α → β → Prop} {fault : α → ε → Prop}
    {xs : List α} (each : ∀ x ∈ xs, (∃ y, image x y) ∨ ∃ e, fault x e) :
    (∃ ys, List.Forall₂ image xs ys) ∨
      ∃ front x rest e, xs = front ++ x :: rest ∧
        (∀ earlier ∈ front, ∃ y, image earlier y) ∧ fault x e := by
  induction xs with
  | nil => exact .inl ⟨[], .nil⟩
  | cons first xs ih =>
    obtain ⟨own, others⟩ := List.forall_mem_cons.mp each
    rcases own with ⟨y, own⟩ | ⟨e, found⟩
    · rcases ih others with ⟨ys, all⟩ | ⟨front, x, rest, e, rfl, earlier, found⟩
      · exact .inl ⟨y :: ys, .cons own all⟩
      · exact .inr ⟨first :: front, x, rest, e, rfl,
          List.forall_mem_cons.mpr ⟨⟨y, own⟩, earlier⟩, found⟩
    · exact .inr ⟨[], first, xs, e, rfl, List.forall_mem_nil _, found⟩

theorem exists_texts_or_first_fault (heap : Heap) (items : List (TypeTag × Value)) :
    (∃ texts, List.Forall₂ (PrintsAs heap) items texts) ∨
      ∃ front item rest e, items = front ++ item :: rest ∧
        (∀ earlier ∈ front, ∃ text, PrintsAs heap earlier text) ∧ ItemFault heap item e :=
  exists_images_or_first_fault fun item _ => exists_text_or_fault heap item

theorem printItems_of_texts (prints : List.Forall₂ (PrintsAs heap) items texts) (out : Output) :
    printItems heap out items = out.writeAndFlush [lineOf texts] := by
  rw [printItems_eq, lineText_of_texts prints]

/-- On every heap: an item has a text that it adds to any line, or a fault, and then it leaves any line as it
is. If all items of a line have texts, printing is one write of the line, whose failure leaves the output as
it was, and one flush behind it, whose failure leaves the line written. Otherwise the fault of the first
item without a text is all that comes of it. -/
theorem printItems_all_or_nothing (heap : Heap) :
    (∀ item : TypeTag × Value,
      (∃ text, PrintsAs heap item text) ∨
        ∃ e, ItemFault heap item e ∧ ∀ line, writeItem heap line item.1 item.2 = (.error e, line)) ∧
    (∀ (item : TypeTag × Value) (line : Bytes) (e : RuntimeError),
      (writeItem heap line item.1 item.2).1 = .error e ↔ ItemFault heap item e) ∧
    (∀ items : List (TypeTag × Value),
      (∃ texts, List.Forall₂ (PrintsAs heap) items texts) ∨
        ∃ front item rest e, items = front ++ item :: rest ∧
          (∀ earlier ∈ front, ∃ text, PrintsAs heap earlier text) ∧ ItemFault heap item e) ∧
    (∀ (out : Output) (items : List (TypeTag × Value)) (texts : List Bytes),
      List.Forall₂ (PrintsAs heap) items texts →
      (∀ e after, out.write (lineOf texts) = (.error e, after) →
        printItems heap out items = (.error e, after) ∧ after.written = out.written) ∧
      ∀ next, out.write (lineOf texts) = (.ok (), next) →
        printItems heap out items = next.flush ∧ next.flush.2.written = out.written ++ lineOf texts) ∧
    ∀ (out : Output) (front rest : List (TypeTag × Value)) (item : TypeTag × Value) (e : RuntimeError),
      (∀ earlier ∈ front, ∃ text, PrintsAs heap earlier text) → ItemFault heap item e →
      printItems heap out (front ++ item :: rest) = (.error e, out) := by
  refine ⟨fun item => ?_, fun item line e => writeItem_eq_error_iff line,
    exists_texts_or_first_fault heap, fun out items texts prints => ?_,
    fun out front rest item e prints fault => ?_⟩
  · refine (exists_text_or_fault heap item).imp_right fun ⟨e, fault⟩ => ⟨e, fault, ?_⟩
    exact writeItem_of_error (itemText_of_fault fault)
  · rw [printItems_of_texts prints]
    constructor
    · intro e after failed
      refine ⟨?_, Output.written_of_write_error failed⟩
      rw [Output.writeAndFlush, failed]
    · intro next done
      rw [Output.writeAndFlush, done, Output.written_flush, Output.eq_adding_of_write_ok done,
        Output.written_adding]
      exact ⟨rfl, rfl⟩
  · rw [printItems_eq, lineText_of_fault rest prints fault]

/-- A character that is no integer, behind a good item and in front of a string that was released. -/
theorem printItems_all_or_nothing_once :
    let heap := Heap.empty .addressable none
    let good : TypeTag × Value := (.char, .int 0x41)
    let bad : TypeTag × Value := (.char, .bool true)
    let stale : TypeTag × Value := (.string, .string ⟨0, 7⟩)
    let out := Output.empty (some 3) true
    PrintsAs heap good [0x41] ∧ ItemFault heap bad (.tagMismatch .int .bool) ∧
      ItemFault heap stale (.staleHandle .string) ∧
      printItems heap out [good, bad, stale] = (.error (.tagMismatch .int .bool), out) ∧
      (printItems heap out [good]).1 = .error (.io "flush failed") ∧
      (printItems heap out [good]).2.written = [0x41, 0x20, 0x0A] := by
  intro heap good bad stale out
  have own : PrintsAs heap good [0x41] := printsAs_iff.mpr (by decide)
  have fault : ItemFault heap bad (.tagMismatch .int .bool) := .mismatch rfl (by decide)
  have released : ItemFault heap stale (.staleHandle .string) := .stale (by decide)
  obtain ⟨-, -, -, whole, nothing⟩ := printItems_all_or_nothing heap
  have prints : ∀ earlier ∈ [good], ∃ text, PrintsAs heap earlier text := by
    intro earlier member
    rw [List.mem_singleton.mp member]
    exact ⟨_, own⟩
  obtain ⟨flushed, shown⟩ := (whole out [good] _ (.cons own .nil)).2 (out.adding 1 (lineOf [[0x41]])) rfl
  rw [← flushed] at shown
  exact ⟨own, fault, released, nothing out [good] [stale] bad _ prints fault, congrArg Prod.fst flushed, shown⟩

end ScriptHost
