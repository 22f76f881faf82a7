import ScriptHost.Proofs.Diagnostics
import ScriptHost.Proofs.JsonObjects
import ScriptHost.Report

/-! What a report tells about a heap. Its JSON text, if objects are written compactly, is one line with one
object, from which the whole report is read back; its human text shows every figure but the number of
releases, each on a line of its own. -/
namespace ScriptHost.HeapReport

/-- Reads a report from its JSON text; every figure is looked up by its name. -/
def ofJson? (text : String) : Option HeapReport := do
  let members ← Json.object? text
  let figure (name : String) : Option ℕ := (members.lookup name).join
  return {
    stats := {
      stringsLive := ← figure "strings_live"
      listsLive := ← figure "lists_live"
      stringsAllocated := ← figure "strings_allocated"
      listsAllocated := ← figure "lists_allocated"
      stringBytes := ← figure "string_bytes"
      listElements := ← figure "list_elements"
      releases := ← figure "releases" }
    maxObjects := ← members.lookup "max_objects" }

/-- How the human text shows the limit. -/
def limitText : Option ℕ → String
  | some n => toString n
  | none => "unbounded"

/-- The lines of the human text, each a label and what it labels. -/
def lines (r : HeapReport) : List (String × String) :=
  [("Strings live:      ", toString r.stats.stringsLive),
    ("Strings allocated: ", toString r.stats.stringsAllocated),
    ("String bytes:      ", toString r.stats.stringBytes),
    ("Lists live:        ", toString r.stats.listsLive),
    ("Lists allocated:   ", toString r.stats.listsAllocated),
    ("List elements:     ", toString r.stats.listElements),
    ("Object limit:      ", limitText r.maxObjects)]

def lineText (line : String × String) : List Char := (line.1 ++ line.2 ++ "\n").toList

/-! The JSON text. -/

section Written

variable {write : List Json.Member → Option String}

theorem isPlainName_of_mem {r : HeapReport} : ∀ member ∈ r.members, Json.IsPlainName member.1 := by
  have plain : ["strings_live", "lists_live", "strings_allocated", "lists_allocated", "string_bytes",
      "list_elements", "releases", "max_objects"].all (fun name => Json.IsPlainName name) = true := by
    decide
  intro member inside
  exact of_decide_eq_true (List.all_eq_true.mp plain member.1 (List.mem_map_of_mem inside))

theorem object?_compact_members (r : HeapReport) : Json.object? (Json.compact r.members) = some r.members := by
  rw [← String.append_empty (s := Json.compact r.members)]
  exact Json.object?_compact isPlainName_of_mem rfl

theorem json_eq (writes : Json.WritesCompactly write) (r : HeapReport) :
    r.json write = Json.compact r.members ++ "\n" := by
  rw [json, writes r.members isPlainName_of_mem]
  rfl

theorem ofJson?_json (writes : Json.WritesCompactly write) (r : HeapReport) :
    ofJson? (r.json write) = some r := by
  have read : Json.object? (r.json write) = some r.members := by
    rw [json_eq writes]
    exact Json.object?_compact isPlainName_of_mem rfl
  rw [ofJson?, read]
  rfl

theorem json_injective (writes : Json.WritesCompactly write) : Function.Injective (json write) := by
  intro r s same
  have read := ofJson?_json writes r
  rw [same, ofJson?_json writes, Option.some.injEq] at read
  exact read.symm

end Written

/-! The human text. -/

theorem toList_human (r : HeapReport) :
    r.human.toList = "=== PYLITE REPORT ===\n".toList ++
      (r.lines.flatMap lineText ++ "=====================\n".toList) := by
  unfold human
  simp only [lines, lineText, String.toList_append, List.flatMap_cons, List.flatMap_nil, List.append_assoc,
    List.nil_append]
  rfl

/-- The first newline ends a line, so that two texts of lines are told apart line by line. -/
theorem append_newline_inj {front front' behind behind' : List Char} (line : '\n' ∉ front)
    (line' : '\n' ∉ front') (same : front ++ '\n' :: behind = front' ++ '\n' :: behind') :
    front = front' ∧ behind = behind' := by
  rcases List.append_eq_append_iff.mp same with ⟨more, rfl, split⟩ | ⟨more, rfl, split⟩
  · cases more with
    | nil => exact ⟨(List.append_nil front).symm, List.tail_eq_of_cons_eq split⟩
    | cons c more =>
      rw [(List.cons.inj split).1] at line'
      exact absurd (List.mem_append_right _ List.mem_cons_self) line'
  · cases more with
    | nil => exact ⟨List.append_nil front', (List.tail_eq_of_cons_eq split).symm⟩
    | cons c more =>
      rw [(List.cons.inj split).1] at line
      exact absurd (List.mem_append_right _ List.mem_cons_self) line

/-- Lines with the same labels tell apart what they label. -/
theorem lines_inj {lines others : List (String × String)} {behind behind' : List Char}
    (labels : lines.map Prod.fst = others.map Prod.fst) (single : ∀ line ∈ lines, '\n' ∉ line.2.toList)
    (single' : ∀ line ∈ others, '\n' ∉ line.2.toList)
    (same : lines.flatMap lineText ++ behind = others.flatMap lineText ++ behind') : lines = others := by
  induction lines generalizing others with
  | nil => exact (List.map_eq_nil_iff.mp labels.symm).symm
  | cons line lines ih =>
    obtain ⟨⟨_, value'⟩, others, rfl, rfl, later⟩ := List.map_eq_cons_iff.mp labels.symm
    obtain ⟨label, value⟩ := line
    obtain ⟨first, rest⟩ := List.forall_mem_cons.mp single
    obtain ⟨first', rest'⟩ := List.forall_mem_cons.mp single'
    simp only [List.flatMap_cons, lineText, String.toList_append, List.append_assoc,
      List.append_cancel_left_eq] at same
    obtain ⟨values, behind⟩ := append_newline_inj first first' same
    obtain rfl : value = value' := String.toList_inj.mp values
    rw [ih later.symm rest rest' behind]

theorem limitText_inj {m n : Option ℕ} : limitText m = limitText n ↔ m = n := by
  have apart (k : ℕ) : toString k ≠ "unbounded" := by
    intro same
    have letter := Decimal.notMem_toString_nat (c := 'u') rfl k
    rw [same] at letter
    exact letter (by decide)
  cases m with
  | none =>
    cases n with
    | none => simp
    | some n => simpa [limitText] using (apart n).symm
  | some m =>
    cases n with
    | none => simpa [limitText] using apart m
    | some n => rw [limitText, limitText, Decimal.toString_nat_inj, Option.some.injEq]

theorem newline_notMem_limitText (limit : Option ℕ) : '\n' ∉ (limitText limit).toList := by
  cases limit with
  | none => decide
  | some n => exact Decimal.notMem_toString_nat rfl n

theorem newline_notMem_of_mem_lines {r : HeapReport} : ∀ line ∈ r.lines, '\n' ∉ line.2.toList := by
  have number := Decimal.notMem_toString_nat (c := '\n') rfl
  simp only [lines, List.forall_mem_cons, List.not_mem_nil, false_imp_iff, implies_true, and_true]
  exact ⟨number _, number _, number _, number _, number _, number _, newline_notMem_limitText _⟩

theorem human_eq_iff {r s : HeapReport} : r.human = s.human ↔ r.lines = s.lines := by
  constructor
  · intro same
    have chars := congrArg String.toList same
    rw [toList_human, toList_human, List.append_cancel_left_eq] at chars
    exact lines_inj rfl newline_notMem_of_mem_lines newline_notMem_of_mem_lines chars
  · intro same
    apply String.toList_inj.mp
    rw [toList_human, toList_human, same]

/-- The number of releases is the one figure that no line shows. -/
theorem lines_eq_iff {r s : HeapReport} :
    r.lines = s.lines ↔ { s with stats.releases := r.stats.releases } = r := by
  obtain ⟨⟨_, _, _, _, _, _, _⟩, _⟩ := r
  obtain ⟨⟨_, _, _, _, _, _, _⟩, _⟩ := s
  simp only [lines, List.cons.injEq, Prod.mk.injEq, true_and, and_true, Decimal.toString_nat_inj,
    limitText_inj, HeapReport.mk.injEq, HeapStats.mk.injEq]
  constructor
  · rintro ⟨rfl, rfl, rfl, rfl, rfl, rfl, rfl⟩
    trivial
  · rintro ⟨⟨rfl, rfl, rfl, rfl, rfl, rfl⟩, rfl⟩
    trivial

/-- If objects are written compactly, the JSON text of a report is a line with one object, which has a member
for each figure in their order and one for the limit, and a newline; it is read as this report, so that
different reports have different texts. The human texts of two reports are the same if at most their numbers
of releases differ. -/
theorem texts_tell_reports_apart :
    (∀ write, Json.WritesCompactly write →
      (∀ r : HeapReport, ∃ line, r.json write = line ++ "\n" ∧ '\n' ∉ line.toList ∧
        Json.object? line = some
          [("strings_live", some r.stats.stringsLive), ("lists_live", some r.stats.listsLive),
            ("strings_allocated", some r.stats.stringsAllocated),
            ("lists_allocated", some r.stats.listsAllocated), ("string_bytes", some r.stats.stringBytes),
            ("list_elements", some r.stats.listElements), ("releases", some r.stats.releases),
            ("max_objects", r.maxObjects)]) ∧
      (∀ r : HeapReport, ofJson? (r.json write) = some r) ∧
      ∀ r s : HeapReport, r.json write = s.json write → r = s) ∧
    ∀ r s : HeapReport, r.human = s.human ↔ { s with stats.releases := r.stats.releases } = r := by
  refine ⟨fun write writes => ?_, fun r s => human_eq_iff.trans lines_eq_iff⟩
  refine ⟨fun r => ⟨_, json_eq writes r, ?_, object?_compact_members r⟩, ofJson?_json writes,
    fun r s same => json_injective writes same⟩
  exact Json.newline_notMem_compact isPlainName_of_mem

/-- A report, the same one after a release, and the same one without a limit. -/
theorem texts_tell_reports_apart_once :
    let stats : HeapStats := ⟨3, 2, 18446744073709551615, 2, 11, 6, 0⟩
    let limited : HeapReport := ⟨stats, some 256⟩
    let released : HeapReport := ⟨{ stats with releases := 1 }, some 256⟩
    let unlimited : HeapReport := ⟨stats, none⟩
    let write := some ∘ Json.compact
    Json.WritesCompactly write ∧ ofJson? (unlimited.json write) = some unlimited ∧
      limited.json write ≠ released.json write ∧ limited.json write ≠ unlimited.json write ∧
      limited.human = released.human ∧ limited.human ≠ unlimited.human := by
  intro stats limited released unlimited write
  have writes : Json.WritesCompactly write := fun _ _ => rfl
  obtain ⟨written, human⟩ := texts_tell_reports_apart
  obtain ⟨-, reads, apart⟩ := written write writes
  refine ⟨writes, reads unlimited, fun same => ?_, fun same => ?_, (human _ _).mpr rfl, fun same => ?_⟩
  · exact absurd (apart _ _ same) (by decide)
  · exact absurd (apart _ _ same) (by decide)
  · exact absurd ((human _ _).mp same) (by decide)

end ScriptHost.HeapReport
