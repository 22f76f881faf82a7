import ScriptHost.Proofs.PrintedItems
import ScriptHost.Proofs.ProcessConsole
import ScriptHost.Proofs.ReadingOutcomes
import ScriptHost.Proofs.ValueEncoding

/-! Printing the raw values that a program hands over. All of them are decoded before the first one is looked
at, so the first unknown letter is to blame whatever stands in front of it; where every letter is known, it is
the first value that has no text. A value is printed under the letter that it was decoded by, and so never
as another type. -/
namespace ScriptHost

open Utf8 (Bytes)

namespace RawValue

/-- The bytes of the letters that are known, and of those that something is printed under. -/
def tagBytes : List UInt8 := ['i', 'f', 's', 'b', 'c', 'n', 'l'].map Char.toUInt8
def printedBytes : List UInt8 := ['i', 'f', 's', 'b', 'c'].map Char.toUInt8

/-- Nothing is printed under the letter, or only live strings and this is none. -/
def Unprinted (heap : Heap) (raw : RawValue) : Prop :=
  raw.tag ∉ printedBytes ∨ raw.tag = 's'.toUInt8 ∧ ¬ heap.strings.Resolves (.ofBits raw.bits)

/-- The text of a raw value. -/
inductive Prints (heap : Heap) : RawValue → Bytes → Prop
  | int (bits : UInt64) : Prints heap (ofTag .int bits) (Utf8.ofString (toString bits.toInt64))
  | float (bits : UInt64) : Prints heap (ofTag .float bits) (Utf8.ofString (Binary64.format ⟨bits⟩))
  | bool (bits : UInt64) :
      Prints heap (ofTag .bool bits) (Utf8.ofString (if bits ≠ 0 then "true" else "false"))
  | char (bits : UInt64) : Prints heap (ofTag .char bits) (Utf8.encodeChar (charOfCodePoint bits.toInt64))
  | string (bits : UInt64) {text : Bytes} (live : heap.stringBytes (.ofBits bits) = .ok text) :
      Prints heap (ofTag .string bits) text

/-- Why a raw value of a known letter has no text. -/
inductive Fault (heap : Heap) : RawValue → RuntimeError → Prop
  | none (bits : UInt64) : Fault heap (ofTag .none bits) (.unknownTag 'n')
  | list (bits : UInt64) : Fault heap (ofTag .list bits) (.unknownTag 'l')
  | stale (bits : UInt64) (released : ¬ heap.strings.Resolves (.ofBits bits)) :
      Fault heap (ofTag .string bits) (.staleHandle .string)

variable {heap : Heap} {raw : RawValue} {raws front rest : List RawValue} {item : TypeTag × Value}
  {text : Bytes} {texts : List Bytes} {e : RuntimeError}

theorem mem_tagBytes_iff {b : UInt8} : b ∈ tagBytes ↔ ∃ tag : TypeTag, b = tag.byte := by
  have letters : tagBytes = [TypeTag.int, .float, .string, .bool, .char, .none, .list].map TypeTag.byte := rfl
  rw [letters, List.mem_map]
  constructor
  · rintro ⟨tag, _, rfl⟩
    exact ⟨tag, rfl⟩
  · rintro ⟨tag, rfl⟩
    exact ⟨tag, by cases tag <;> simp, rfl⟩

@[simp] theorem mem_tagBytes_ofTag (tag : TypeTag) (bits : UInt64) : (ofTag tag bits).tag ∈ tagBytes :=
  mem_tagBytes_iff.mpr ⟨tag, rfl⟩

theorem exists_ofTag (known : raw.tag ∈ tagBytes) : ∃ tag bits, raw = ofTag tag bits := by
  obtain ⟨tag, letter⟩ := mem_tagBytes_iff.mp known
  exact ⟨tag, raw.bits, (ofTag_of_typeTag (TypeTag.ofByte_eq_ok_iff.mpr letter) raw.bits).symm⟩

theorem toItem_of_unknown (unknown : raw.tag ∉ tagBytes) :
    raw.toItem = .error (.unknownTag (Char.ofNat raw.tag.toNat)) := by
  have undecoded : raw.typeTag = .error (.unknownTag (Char.ofNat raw.tag.toNat)) :=
    TypeTag.ofByte_of_unknown fun tag letter => unknown (mem_tagBytes_iff.mpr ⟨tag, letter⟩)
  simp only [toItem, undecoded]

/-- Every raw value of a known letter becomes an item of the type of its letter. -/
theorem exists_item (known : raw.tag ∈ tagBytes) : ∃ item, raw.toItem = .ok item := by
  obtain ⟨tag, bits, rfl⟩ := exists_ofTag known
  cases tag <;> exact ⟨_, rfl⟩

theorem Prints.printsAs (prints : raw.Prints heap text) (decoded : raw.toItem = .ok item) :
    PrintsAs heap item text := by
  cases prints with
  | bool bits =>
    cases decoded
    refine printsAs_iff.mpr ?_
    by_cases zero : bits = 0 <;> simp [itemText, Value.asBool, zero]
  | string bits live =>
    cases decoded
    exact printsAs_iff.mpr live
  | int | float | char =>
    cases decoded
    exact printsAs_iff.mpr rfl

theorem Fault.itemFault (fault : raw.Fault heap e) (decoded : raw.toItem = .ok item) :
    ItemFault heap item e := by
  cases fault with
  | none | list =>
    cases decoded
    exact .unknown _ (by simp)
  | stale bits released =>
    cases decoded
    exact .stale released

/-- A raw value of a known letter has a text or a fault. -/
theorem exists_text_or_fault (heap : Heap) (known : raw.tag ∈ tagBytes) :
    (∃ text, raw.Prints heap text) ∨ ∃ e, raw.Fault heap e := by
  obtain ⟨tag, bits, rfl⟩ := exists_ofTag known
  cases tag with
  | int => exact .inl ⟨_, .int bits⟩
  | float => exact .inl ⟨_, .float bits⟩
  | bool => exact .inl ⟨_, .bool bits⟩
  | char => exact .inl ⟨_, .char bits⟩
  | none => exact .inr ⟨_, .none bits⟩
  | list => exact .inr ⟨_, .list bits⟩
  | string =>
    by_cases live : heap.strings.Resolves (.ofBits bits)
    · obtain ⟨text, read⟩ := exists_stringBytes live
      exact .inl ⟨text, .string bits read⟩
    · exact .inr ⟨_, .stale bits live⟩

theorem mem_tagBytes_of_printed {b : UInt8} (printed : b ∈ printedBytes) : b ∈ tagBytes := by
  have letters : tagBytes = printedBytes ++ ['n', 'l'].map Char.toUInt8 := rfl
  rw [letters]
  exact List.mem_append_left _ printed

theorem tag_ofTag_printed_iff (tag : TypeTag) (bits : UInt64) :
    (ofTag tag bits).tag ∈ printedBytes ↔ tag ≠ .none ∧ tag ≠ .list := by
  change tag.byte ∈ printedBytes ↔ _
  cases tag <;> decide

theorem Fault.unprinted (fault : raw.Fault heap e) : raw.Unprinted heap := by
  cases fault with
  | none | list => exact .inl (by simp [tag_ofTag_printed_iff])
  | stale bits released => exact .inr ⟨rfl, released⟩

theorem Prints.known (prints : raw.Prints heap text) : raw.tag ∈ tagBytes := by
  cases prints <;> exact mem_tagBytes_ofTag _ _

theorem prints_iff : (∃ text, raw.Prints heap text) ↔ ¬ raw.Unprinted heap := by
  constructor
  · rintro ⟨text, prints⟩ (unprinted | ⟨letter, released⟩)
    · cases prints <;> simp [tag_ofTag_printed_iff] at unprinted
    · cases prints with
      | string bits live =>
        rw [bits_ofTag] at released
        rw [stringBytes_of_stale released] at live
        cases live
      | int | float | bool | char => cases letter
  · intro printable
    obtain ⟨printed, _⟩ := not_or.mp printable
    rcases exists_text_or_fault heap (mem_tagBytes_of_printed (not_not.mp printed)) with prints | ⟨e, fault⟩
    · exact prints
    · exact absurd fault.unprinted printable

theorem Fault.ne_io (fault : raw.Fault heap e) (reason : String) : e ≠ .io reason := by
  cases fault <;> nofun

/-! Arrays of raw values. -/

theorem mapM_of_unknown (known : ∀ earlier ∈ front, earlier.tag ∈ tagBytes) (unknown : raw.tag ∉ tagBytes)
    (rest : List RawValue) :
    (front ++ raw :: rest).mapM toItem = .error (.unknownTag (Char.ofNat raw.tag.toNat)) := by
  induction front with
  | nil =>
    rw [List.nil_append, List.mapM_cons, toItem_of_unknown unknown]
    rfl
  | cons first front ih =>
    obtain ⟨own, others⟩ := List.forall_mem_cons.mp known
    obtain ⟨item, decoded⟩ := exists_item own
    rw [List.cons_append, List.mapM_cons, decoded, ih others]
    rfl

theorem exists_items (known : ∀ raw ∈ raws, raw.tag ∈ tagBytes) :
    ∃ items, raws.mapM toItem = .ok items ∧
      List.Forall₂ (fun raw item => raw.toItem = .ok item) raws items := by
  induction raws with
  | nil => exact ⟨[], rfl, .nil⟩
  | cons raw raws ih =>
    obtain ⟨own, others⟩ := List.forall_mem_cons.mp known
    obtain ⟨item, decoded⟩ := exists_item own
    obtain ⟨items, all, decodedAll⟩ := ih others
    refine ⟨item :: items, ?_, .cons decoded decodedAll⟩
    rw [List.mapM_cons, decoded, all]
    rfl

theorem forall₂_printsAs {items : List (TypeTag × Value)} (prints : List.Forall₂ (Prints heap) raws texts)
    (decoded : List.Forall₂ (fun raw item => raw.toItem = .ok item) raws items) :
    List.Forall₂ (PrintsAs heap) items texts := by
  induction prints generalizing items with
  | nil =>
    cases decoded
    exact .nil
  | cons first _ ih =>
    obtain _ | ⟨own, others⟩ := decoded
    exact .cons (first.printsAs own) (ih others)

theorem forall_mem_items {items : List (TypeTag × Value)}
    (decoded : List.Forall₂ (fun raw item => raw.toItem = .ok item) raws items)
    (prints : ∀ raw ∈ raws, ∃ text, raw.Prints heap text) :
    ∀ item ∈ items, ∃ text, PrintsAs heap item text := by
  induction decoded with
  | nil => exact List.forall_mem_nil _
  | cons first _ ih =>
    obtain ⟨⟨text, own⟩, others⟩ := List.forall_mem_cons.mp prints
    exact List.forall_mem_cons.mpr ⟨⟨text, own.printsAs first⟩, ih others⟩

theorem forall_exists_prints (prints : List.Forall₂ (Prints heap) raws texts) :
    ∀ raw ∈ raws, ∃ text, raw.Prints heap text := by
  induction prints with
  | nil => exact List.forall_mem_nil _
  | cons first _ ih => exact List.forall_mem_cons.mpr ⟨⟨_, first⟩, ih⟩

theorem exists_first_unknown (unknown : ¬ ∀ raw ∈ raws, raw.tag ∈ tagBytes) :
    ∃ front raw rest, raws = front ++ raw :: rest ∧ (∀ earlier ∈ front, earlier.tag ∈ tagBytes) ∧
      raw.tag ∉ tagBytes := by
  induction raws with
  | nil => exact absurd nofun unknown
  | cons first raws ih =>
    by_cases own : first.tag ∈ tagBytes
    · have others : ¬ ∀ raw ∈ raws, raw.tag ∈ tagBytes := fun all =>
        unknown (List.forall_mem_cons.mpr ⟨own, all⟩)
      obtain ⟨front, raw, rest, rfl, known, found⟩ := ih others
      exact ⟨first :: front, raw, rest, rfl, List.forall_mem_cons.mpr ⟨own, known⟩, found⟩
    · exact ⟨[], first, raws, rfl, nofun, own⟩

theorem exists_texts_or_first_fault (heap : Heap) (known : ∀ raw ∈ raws, raw.tag ∈ tagBytes) :
    (∃ texts, List.Forall₂ (Prints heap) raws texts) ∨
      ∃ front raw rest e, raws = front ++ raw :: rest ∧
        (∀ earlier ∈ front, ∃ text, earlier.Prints heap text) ∧ raw.Fault heap e :=
  exists_images_or_first_fault fun raw member => exists_text_or_fault heap (known raw member)

end RawValue

theorem Output.writeAndFlush_io {out after : Output} {parts : List Bytes} {e : RuntimeError}
    (failed : out.writeAndFlush parts = (.error e, after)) : ∃ reason, e = .io reason := by
  obtain ⟨_, reason, cause, _⟩ := writeAndFlush_error failed
  exact ⟨reason, cause⟩

namespace Process

open RawValue (tagBytes)

variable {p : Process} {raws front rest : List RawValue} {raw : RawValue} {texts : List Bytes}
  {e : RuntimeError}

theorem printRaw_of_items {items : List (TypeTag × Value)} (decoded : raws.mapM RawValue.toItem = .ok items) :
    ((p.printRaw raws).1, (p.printRaw raws).2.output) = printItems p.heap p.output items := by
  simp only [printRaw, decoded]
  rw [← p.output_demandHeap]
  rfl

theorem printRaw_of_prints (prints : List.Forall₂ (RawValue.Prints p.heap) raws texts) :
    ((p.printRaw raws).1, (p.printRaw raws).2.output) = p.output.writeAndFlush [lineOf texts] := by
  have known : ∀ raw ∈ raws, raw.tag ∈ tagBytes := by
    intro raw member
    obtain ⟨text, own⟩ := RawValue.forall_exists_prints prints raw member
    exact own.known
  obtain ⟨items, decoded, all⟩ := RawValue.exists_items known
  rw [printRaw_of_items decoded]
  exact printItems_of_texts (RawValue.forall₂_printsAs prints all) p.output

/-- A raw value of an unknown letter ends the print before anything else is looked at. -/
theorem printRaw_of_unknown (known : ∀ earlier ∈ front, earlier.tag ∈ tagBytes)
    (unknown : raw.tag ∉ tagBytes) :
    p.printRaw (front ++ raw :: rest) = (.error (.unknownTag (Char.ofNat raw.tag.toNat)), p) := by
  rw [printRaw, RawValue.mapM_of_unknown known unknown rest]

theorem printRaw_of_fault (known : ∀ r ∈ front ++ raw :: rest, r.tag ∈ tagBytes)
    (prints : ∀ earlier ∈ front, ∃ text, earlier.Prints p.heap text) (fault : raw.Fault p.heap e) :
    ((p.printRaw (front ++ raw :: rest)).1, (p.printRaw (front ++ raw :: rest)).2.output) =
      (.error e, p.output) := by
  obtain ⟨inFront, behind⟩ := List.forall_mem_append.mp known
  obtain ⟨own, others⟩ := List.forall_mem_cons.mp behind
  obtain ⟨earlier, front_decoded, each⟩ := RawValue.exists_items inFront
  obtain ⟨item, decoded⟩ := RawValue.exists_item own
  obtain ⟨later, rest_decoded, -⟩ := RawValue.exists_items others
  have whole : (front ++ raw :: rest).mapM RawValue.toItem = .ok (earlier ++ item :: later) := by
    rw [List.mapM_append, List.mapM_cons, front_decoded, decoded, rest_decoded]
    rfl
  have line : lineText p.heap (earlier ++ item :: later) = .error e :=
    lineText_of_fault later (RawValue.forall_mem_items each prints) (fault.itemFault decoded)
  rw [printRaw_of_items whole, printItems_eq, line]

/-- How a print ends: with all the texts, at its first unknown letter, or at its first fault. -/
inductive Printing (p : Process) (raws : List RawValue) : Outcome Unit → Output → Prop
  | texts {texts : List Bytes} {result : Outcome Unit} {output : Output}
      (prints : List.Forall₂ (RawValue.Prints p.heap) raws texts)
      (written : p.output.writeAndFlush [lineOf texts] = (result, output)) : Printing p raws result output
  | unknown {front rest : List RawValue} {raw : RawValue} (split : raws = front ++ raw :: rest)
      (unknown : raw.tag ∉ tagBytes) :
      Printing p raws (.error (.unknownTag (Char.ofNat raw.tag.toNat))) p.output
  | fault {front rest : List RawValue} {raw : RawValue} {e : RuntimeError}
      (split : raws = front ++ raw :: rest) (fault : raw.Fault p.heap e) : Printing p raws (.error e) p.output

theorem printRaw_printing (p : Process) (raws : List RawValue) :
    Printing p raws (p.printRaw raws).1 (p.printRaw raws).2.output := by
  by_cases known : ∀ raw ∈ raws, raw.tag ∈ tagBytes
  · rcases RawValue.exists_texts_or_first_fault p.heap known with
      ⟨texts, prints⟩ | ⟨front, raw, rest, e, split, earlier, fault⟩
    · exact .texts prints (printRaw_of_prints prints).symm
    · subst split
      obtain ⟨result, output⟩ := Prod.mk.inj (printRaw_of_fault known earlier fault)
      rw [result, output]
      exact .fault rfl fault
  · obtain ⟨front, raw, rest, rfl, earlier, unknown⟩ := RawValue.exists_first_unknown known
    rw [printRaw_of_unknown earlier unknown]
    exact .unknown rfl unknown

theorem exists_unprinted_iff : (∃ raw ∈ raws, raw.Unprinted p.heap) ↔
    ¬ ∀ raw ∈ raws, ∃ text, raw.Prints p.heap text := by
  simp only [RawValue.prints_iff, not_forall, not_not, exists_prop]

variable {result : Outcome Unit} {output : Output}

theorem Printing.ne_tagMismatch (printing : Printing p raws result output) (expected found : TypeTag) :
    result ≠ .error (.tagMismatch expected found) := by
  rintro rfl
  cases printing with
  | texts _ written =>
    obtain ⟨_, cause⟩ := Output.writeAndFlush_io written
    cases cause
  | fault _ fault => cases fault

/-- Besides the output, only a value without a text lets a print fail. -/
theorem Printing.error_iff (printing : Printing p raws result output) :
    (∃ e, result = .error e ∧ ∀ reason, e ≠ .io reason) ↔
      ∃ raw ∈ raws, raw.Unprinted p.heap := by
  cases printing with
  | texts prints written =>
    rw [exists_unprinted_iff]
    refine iff_of_false ?_ fun unprinted => unprinted (RawValue.forall_exists_prints prints)
    rintro ⟨e, rfl, internal⟩
    obtain ⟨reason, cause⟩ := Output.writeAndFlush_io written
    exact internal reason cause
  | @unknown front rest raw split unknown =>
    refine iff_of_true ⟨_, rfl, nofun⟩ ⟨raw, ?_, .inl ?_⟩
    · simp [split]
    · exact fun printed => unknown (RawValue.mem_tagBytes_of_printed printed)
  | @fault front rest raw e split fault =>
    refine iff_of_true ⟨e, rfl, fault.ne_io⟩ ⟨raw, ?_, fault.unprinted⟩
    simp [split]

theorem Printing.output_of_error (printing : Printing p raws (.error e) output)
    (internal : ∀ reason, e ≠ .io reason) : output = p.output := by
  cases printing with
  | texts _ written =>
    obtain ⟨reason, cause⟩ := Output.writeAndFlush_io written
    exact absurd cause (internal reason)
  | unknown | fault => rfl

theorem Printing.line_of_ok (printing : Printing p raws (.ok ()) output) :
    ∃ texts, List.Forall₂ (RawValue.Prints p.heap) raws texts ∧
      output.written = p.output.written ++ lineOf texts := by
  cases printing with
  | @texts texts _ _ prints written =>
    refine ⟨texts, prints, ?_⟩
    rw [Output.eq_adding_of_writeAndFlush_ok written, Output.written_adding]
    simp

theorem Printing.ne_io (printing : Printing p raws result output) (unfailing : p.output.Unfailing)
    (reason : String) : result ≠ .error (.io reason) := by
  rintro rfl
  cases printing with
  | texts _ written =>
    rw [unfailing.writeAndFlush] at written
    cases written
  | fault _ fault => exact fault.ne_io reason rfl

theorem Printing.error_iff_of_unfailing (printing : Printing p raws result output)
    (unfailing : p.output.Unfailing) :
    (∃ e, result = .error e) ↔ ∃ raw ∈ raws, raw.Unprinted p.heap := by
  rw [← printing.error_iff]
  constructor
  · rintro ⟨e, rfl⟩
    refine ⟨e, rfl, fun reason cause => ?_⟩
    exact printing.ne_io unfailing reason (congrArg Except.error cause)
  · rintro ⟨e, failed, _⟩
    exact ⟨e, failed⟩

theorem printRaw_of_unfailing (unfailing : p.output.Unfailing)
    (prints : List.Forall₂ (RawValue.Prints p.heap) raws texts) :
    ((p.printRaw raws).1, (p.printRaw raws).2.output) = (.ok (), p.output.adding 2 (lineOf texts)) := by
  rw [printRaw_of_prints prints, unfailing.writeAndFlush]
  simp

/-- Printing any raw values on any heap. Failures of the output aside, it fails for an unknown or unprinted
letter and for a stale string, and for no mismatch. Unknown letters win over all else, the first of them over
the others; where there is none, the first value without a text is to blame. A failure leaves the output as
it was, and a success has added the texts of all values in one line. On an output that does not fail there is
no other failure, and values that all have texts are printed. -/
theorem printRaw_fails_for_first_fault (p : Process) (raws : List RawValue) :
    let result := (p.printRaw raws).1
    let output := (p.printRaw raws).2.output
    (∀ expected found, result ≠ .error (.tagMismatch expected found)) ∧
    ((∃ e, result = .error e ∧ ∀ reason, e ≠ .io reason) ↔ ∃ raw ∈ raws, raw.Unprinted p.heap) ∧
    (∀ front raw rest, raws = front ++ raw :: rest → (∀ earlier ∈ front, earlier.tag ∈ tagBytes) →
      raw.tag ∉ tagBytes → result = .error (.unknownTag (Char.ofNat raw.tag.toNat))) ∧
    (∀ front raw rest e, raws = front ++ raw :: rest → (∀ known ∈ raws, known.tag ∈ tagBytes) →
      (∀ earlier ∈ front, ∃ text, earlier.Prints p.heap text) → raw.Fault p.heap e → result = .error e) ∧
    (∀ e, result = .error e → (∀ reason, e ≠ .io reason) → output = p.output) ∧
    (∀ texts, List.Forall₂ (RawValue.Prints p.heap) raws texts →
      (result, output) = p.output.writeAndFlush [lineOf texts]) ∧
    (result = .ok () → ∃ texts, List.Forall₂ (RawValue.Prints p.heap) raws texts ∧
      output.written = p.output.written ++ lineOf texts) ∧
    (p.output.Unfailing →
      ((∃ e, result = .error e) ↔ ∃ raw ∈ raws, raw.Unprinted p.heap) ∧
      ∀ texts, List.Forall₂ (RawValue.Prints p.heap) raws texts →
        result = .ok () ∧ output = p.output.adding 2 (lineOf texts)) := by
  intro result output
  have printing : Printing p raws result output := printRaw_printing p raws
  refine ⟨printing.ne_tagMismatch, printing.error_iff, ?_, ?_, ?_, fun texts => printRaw_of_prints, ?_, ?_⟩
  · rintro front raw rest rfl known unknown
    exact congrArg Prod.fst (printRaw_of_unknown known unknown)
  · rintro front raw rest e rfl known earlier fault
    exact congrArg Prod.fst (printRaw_of_fault known earlier fault)
  · intro e failed internal
    rw [failed] at printing
    exact printing.output_of_error internal
  · intro done
    rw [done] at printing
    exact printing.line_of_ok
  · intro unfailing
    refine ⟨printing.error_iff_of_unfailing unfailing, fun texts prints => ?_⟩
    exact Prod.mk.inj (printRaw_of_unfailing unfailing prints)

/-- A stale string in front of an unknown letter, a stale string in front of a value that has no text, and a
line with a live string. -/
theorem printRaw_fails_for_first_fault_once :
    let heap := ((Heap.empty .addressable none).createString [0x68, 0x69]).2
    let fresh := Process.start .plain ⟨none, none, none⟩ (fun _ => .regular) []
    let p : Process := { fresh with live := some ⟨heap, none⟩ }
    let live := RawValue.ofTag .string 0
    let stale := RawValue.ofTag .string 7
    let nothing := RawValue.ofTag .none 0
    let unknown : RawValue := ⟨0x71, 0⟩
    let two := RawValue.ofTag .bool 2
    (p.printRaw [live, stale, unknown, nothing]).1 = .error (.unknownTag 'q') ∧
      (p.printRaw [two, stale, nothing]).1 = .error (.staleHandle .string) ∧
      (p.printRaw [two, stale, nothing]).2.output = p.output ∧
      (p.printRaw [live, two]).1 = .ok () ∧
      (p.printRaw [live, two]).2.output.written = Utf8.ofString "hi true \n" := by
  intro heap fresh p live stale nothing unknown two
  have known : ∀ raw ∈ [live, stale], raw.tag ∈ tagBytes := by simp [live, stale]
  have prints : List.Forall₂ (RawValue.Prints p.heap) [live, two] [[0x68, 0x69], Utf8.ofString "true"] :=
    .cons (.string 0 rfl) (.cons (.bool 2) .nil)
  have earlier : ∀ raw ∈ [two], ∃ text, raw.Prints p.heap text := by
    intro raw member
    rw [List.mem_singleton.mp member]
    exact ⟨_, .bool 2⟩
  have released : stale.Fault p.heap (.staleHandle .string) := .stale 7 (by decide)
  obtain ⟨-, -, first, -⟩ := printRaw_fails_for_first_fault p [live, stale, unknown, nothing]
  obtain ⟨-, -, -, fault, unchanged, -⟩ := printRaw_fails_for_first_fault p [two, stale, nothing]
  obtain ⟨-, -, -, -, -, -, -, unfailing⟩ := printRaw_fails_for_first_fault p [live, two]
  have stopped := fault [two] stale [nothing] _ rfl (by simp [two, stale, nothing]) earlier released
  obtain ⟨done, line⟩ := (unfailing Output.unfailing_empty).2 _ prints
  refine ⟨first [live, stale] unknown [nothing] rfl known (by decide), stopped,
    unchanged _ stopped released.ne_io, done, ?_⟩
  rw [line, Output.written_adding]
  rfl

end Process
end ScriptHost
