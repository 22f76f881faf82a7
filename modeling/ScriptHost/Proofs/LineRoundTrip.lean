import Mathlib.Algebra.GroupWithZero.Nat
import ScriptHost.Proofs.HeapInvariant
import ScriptHost.Proofs.PrintedItems
import ScriptHost.Proofs.TokenStream
import ScriptHost.Proofs.Utf8Decoding

/-! Printed lines read back. The texts of integers and of strings without separators are words, a line
sets one separator behind each, and a read takes one word and leaves the separator. -/
namespace ScriptHost

open Utf8 (Bytes)

/-- One or more bytes that are no separators. -/
structure IsWord (bytes : Bytes) : Prop where
  some : bytes ≠ []
  unbroken : ∀ b ∈ bytes, isSeparator b = false

theorem isSeparator_ofNat {n : Nat} (low : 0x20 < n) (high : n ≤ 127) :
    isSeparator (UInt8.ofNat n) = false := by
  have number : (UInt8.ofNat n).toNat = n :=
    UInt8.toNat_ofNat_of_lt' (Nat.lt_of_le_of_lt high (by decide))
  apply Bool.eq_false_iff.mpr
  intro separator
  simp only [isSeparator, Bool.or_eq_true, beq_iff_eq, Bool.and_eq_true, decide_eq_true_eq,
    UInt8.le_iff_toNat_le, ← UInt8.toNat_inj, number, UInt8.reduceToNat] at separator
  omega

/-- Visible ASCII characters are no separators. -/
theorem isWord_encode {text : List Char} (some : text ≠ [])
    (visible : ∀ c ∈ text, 0x20 < c.toNat ∧ c.toNat ≤ 127) : IsWord (Utf8.encode text) := by
  constructor
  · obtain ⟨c, rest, rfl⟩ := List.exists_cons_of_ne_nil some
    rw [Utf8.encode, List.flatMap_cons, Utf8.encodeChar_of_ascii (visible c List.mem_cons_self).2]
    exact List.cons_ne_nil _ _
  · intro b member
    obtain ⟨c, inside, byte⟩ := List.mem_flatMap.mp member
    obtain ⟨low, high⟩ := visible c inside
    rw [Utf8.encodeChar_of_ascii high, List.mem_singleton] at byte
    rw [byte]
    exact isSeparator_ofNat low high

theorem isWord_toString (n : Int64) : IsWord (Utf8.ofString (toString n)) := by
  apply isWord_encode (Decimal.toList_toString_ne_nil n.toInt)
  intro c member
  rcases Decimal.isDigit_or_minus_of_mem_toString member with digit | rfl
  · have code := Decimal.toNat_of_isDigit digit
    omega
  · decide

theorem numeral?_toString (n : Int64) :
    numeral? Decimal.int64? (Utf8.ofString (toString n)) = some n := by
  rw [numeral?, Utf8.ofString, Utf8.decode?_encode]
  exact Decimal.int64?_toString n

/-- The input takes a word as one token, whatever separators stand in front of it. -/
theorem readToken_of_word {input : Input} {gap word behind : Bytes} {separator : UInt8}
    (stream : input.Streams (gap ++ (word ++ separator :: behind)))
    (separators : ∀ b ∈ gap, isSeparator b) (isWord : IsWord word) (ends : isSeparator separator) :
    ∃ rest, input.readToken = (.ok word, rest) ∧ rest.Streams (separator :: behind) := by
  obtain ⟨b, tail, rfl⟩ := List.exists_cons_of_ne_nil isWord.some
  have first : isSeparator b = false := isWord.unbroken b List.mem_cons_self
  have inside : ∀ c ∈ b :: tail, (!isSeparator c) = true := by
    intro c member
    rw [isWord.unbroken c member]
    rfl
  have stop : (gap ++ (b :: tail ++ separator :: behind)).dropWhile isSeparator =
      b :: (tail ++ separator :: behind) := by
    rw [List.dropWhile_append_of_pos separators]
    simp [first]
  obtain ⟨rest, read, streamed⟩ := Input.readToken_of_stop stream stop
  have token : (b :: (tail ++ separator :: behind)).takeWhile (!isSeparator ·) = b :: tail := by
    rw [← List.cons_append, List.takeWhile_append_of_pos inside]
    simp [ends]
  have left : (b :: (tail ++ separator :: behind)).dropWhile (!isSeparator ·) =
      separator :: behind := by
    rw [← List.cons_append, List.dropWhile_append_of_pos inside]
    simp [ends]
  rw [token] at read
  rw [left] at streamed
  exact ⟨rest, read, streamed⟩

/-- The text of an item that is read back as it was: an integer, or a live string that is a word. -/
inductive Readable (heap : Heap) : TypeTag × Value → Bytes → Prop where
  | int (n : Int64) : Readable heap (.int, .int n) (Utf8.ofString (toString n))
  | string (h : StringHandle) {bytes : Bytes} (live : heap.stringBytes h = .ok bytes)
      (isWord : IsWord bytes) : Readable heap (.string, .string h) bytes

variable {source heap next : Heap} {limit : Option Nat} {item : TypeTag × Value}
  {items : List (TypeTag × Value)} {text : Bytes} {texts : List Bytes} {v : Value}

theorem Readable.isWord (readable : Readable source item text) : IsWord text := by
  cases readable with
  | int n => exact isWord_toString n
  | string h live isWord => exact isWord

theorem Readable.printsAs (readable : Readable source item text) : PrintsAs source item text := by
  rw [printsAs_iff]
  cases readable with
  | int n => rfl
  | string h live isWord => exact live

theorem printItems_of_readable (readable : List.Forall₂ (Readable source) items texts) {out : Output}
    (takes : out.Takes (lineOf texts).length) :
    ∃ next, printItems source out items = (.ok (), next) ∧
      next.written = out.written ++ lineOf texts := by
  have room : out.Takes ([lineOf texts].flatten.length + 0) := by simpa using takes
  refine ⟨out.adding 2 [lineOf texts].flatten, ?_, by simp⟩
  rw [printItems_of_texts (readable.imp fun _ _ one => one.printsAs)]
  exact room.writeAndFlush

/-- A read gave back the value of an item: the integer itself, or a string of the same bytes. -/
inductive GivesBack (source heap : Heap) : TypeTag × Value → Value → Prop where
  | int (n : Int64) : GivesBack source heap (.int, .int n) (.int n)
  | string (h g : StringHandle) {bytes : Bytes} (live : source.stringBytes h = .ok bytes)
      (read : heap.stringBytes g = .ok bytes) :
      GivesBack source heap (.string, .string h) (.string g)

/-- The strings that a read of the item adds to the heap. -/
def newStrings (item : TypeTag × Value) : Nat := if item.1 = .string then 1 else 0

/-- The heap holds all that it held before, and so many more strings under the same limit. -/
structure Heap.Extends (heap next : Heap) (count : Nat) : Prop where
  kept : ∀ g s, heap.string g = .ok s → next.string g = .ok s
  size : next.strings.size = heap.strings.size + count
  limit : next.strings.limit = heap.strings.limit

theorem GivesBack.mono (gives : GivesBack source heap item v)
    (kept : ∀ g s, heap.string g = .ok s → next.string g = .ok s) : GivesBack source next item v := by
  cases gives with
  | int n => exact .int n
  | string h g live read =>
    obtain ⟨s, found, text⟩ := Heap.stringBytes_eq_ok_iff.mp read
    exact .string h g live (Heap.stringBytes_eq_ok_iff.mpr ⟨s, kept g s found, text⟩)

/-- A string of a sound heap goes through a token unchanged, as it holds no zero. -/
theorem bytes_ofBytes_of_live (sound : source.Sound limit) {h : StringHandle} {bytes : Bytes}
    (live : source.stringBytes h = .ok bytes) : (PooledString.ofBytes bytes).bytes = bytes := by
  obtain ⟨s, found, rfl⟩ := Heap.stringBytes_eq_ok_iff.mp live
  exact PooledString.bytes_ofBytes_of_nonzero (sound.string found).2

theorem parseToken_of_readable (sound : source.Sound limit) (readable : Readable source item text)
    (room : heap.strings.size + newStrings item ≤ Registry.ceiling heap.strings.limit) :
    ∃ v next, parseToken heap item.1 text = (.ok (some v), next) ∧ GivesBack source next item v ∧
      heap.Extends next (newStrings item) := by
  cases readable with
  | int n =>
    refine ⟨.int n, heap, ?_, .int n, ⟨fun _ _ found => found, rfl, rfl⟩⟩
    rw [parseToken, numeral?_toString]
    rfl
  | string h live isWord =>
    have one : newStrings (.string, .string h) = 1 := rfl
    have notFull : ¬ heap.strings.isFull := by
      rw [Registry.isFull_iff]
      omega
    let next : Heap := { heap with strings := (heap.strings.register (.ofBytes text)).2 }
    have found : next.string heap.strings.nextHandle = .ok (.ofBytes text) :=
      Registry.get_nextHandle notFull _
    have read : next.stringBytes heap.strings.nextHandle = .ok text :=
      Heap.stringBytes_eq_ok_iff.mpr ⟨_, found, bytes_ofBytes_of_live sound live⟩
    refine ⟨.string heap.strings.nextHandle, next, ?_, .string h _ live read, ?_, ?_, ?_⟩
    · rw [parseToken, Heap.createString_of_not_isFull notFull]
      rfl
    · intro g s found
      exact Registry.get_register_of_get found _
    · exact Registry.size_register notFull _
    · simp only [next, Registry.register_of_not_isFull notFull]

theorem Readable.promptSuffix (readable : Readable source item text) :
    ∃ suffix, item.1.promptSuffix = .ok suffix := by
  cases readable with
  | int n => exact ⟨_, rfl⟩
  | string h live isWord => exact ⟨_, rfl⟩

/-- What is written to ask for a value of a type. -/
def promptOf (prompt : Bytes) (tag : TypeTag) : Bytes :=
  prompt ++ Utf8.ofString (tag.promptSuffix.toOption.getD "")

namespace Session

variable {s : Session} {prompt gap behind : Bytes} {asked : List (Bytes × TypeTag × Value)}

/-- The session behind some calls. -/
def after (s : Session) : List Call → Session
  | [] => s
  | c :: rest => (s.call c).2.after rest

/-- A read that meets the text of an item takes it at the first attempt, and leaves the space. -/
theorem call_of_readable (sound : source.Sound limit) (readable : Readable source item text)
    (separators : ∀ b ∈ gap, isSeparator b)
    (stream : s.input.Streams (gap ++ (text ++ 0x20 :: behind)))
    (room : s.heap.strings.size + newStrings item ≤ Registry.ceiling s.heap.strings.limit)
    {count : Nat} (takes : s.output.Takes ((promptOf prompt item.1).length + count)) :
    ∃ v t, s.call (.readTyped prompt item.1) = (.value (.ok v) [], t) ∧
      GivesBack source t.heap item v ∧ s.heap.Extends t.heap (newStrings item) ∧
      t.input.Streams (0x20 :: behind) ∧
      t.output.written = s.output.written ++ promptOf prompt item.1 ∧ t.output.Takes count := by
  obtain ⟨suffix, known⟩ := readable.promptSuffix
  have shown : [prompt, Utf8.ofString suffix].flatten = promptOf prompt item.1 := by
    simp [promptOf, known, Except.toOption]
  rw [← shown] at takes ⊢
  obtain ⟨rest, read, streamed⟩ := readToken_of_word stream separators readable.isWord rfl
  obtain ⟨v, next, parsed, gives, more⟩ := parseToken_of_readable sound readable room
  refine ⟨v, ⟨next, rest, _⟩, ?_, gives, more, streamed, Output.written_adding _ _ _, takes.adding 3⟩
  simp only [call, readTyped_of_fit known takes.writeAndFlush read parsed]
  rfl

/-- Reads of items, each with a prompt of its own. -/
def asking (asked : List (Bytes × TypeTag × Value)) : List Call :=
  asked.map fun (prompt, tag, _) => .readTyped prompt tag

/-- All that is written while the items are read at the first attempt. -/
def promptsOf (asked : List (Bytes × TypeTag × Value)) : Bytes :=
  asked.flatMap fun (prompt, tag, _) => promptOf prompt tag

/-- The strings that reads of the items add to the heap. -/
def newStringsOf (asked : List (Bytes × TypeTag × Value)) : Nat :=
  (asked.map fun a => newStrings a.2).sum

/-- A read that was answered at once, with a value that gives back the item on both heaps. -/
def ReadsBack (source final : Heap) (asked : Bytes × TypeTag × Value) (o : Observation) : Prop :=
  ∃ v, o.answer = .value (.ok v) [] ∧ GivesBack source o.heap asked.2 v ∧
    GivesBack source final asked.2 v

theorem newStringsOf_cons (prompt : Bytes) (item : TypeTag × Value) :
    newStringsOf ((prompt, item) :: asked) = newStrings item + newStringsOf asked := rfl

theorem promptsOf_cons (prompt : Bytes) (item : TypeTag × Value) :
    promptsOf ((prompt, item) :: asked) = promptOf prompt item.1 ++ promptsOf asked := rfl

/-- By induction on the items: each read finds the space that the one before it left. -/
theorem readsBack_of_streams (sound : source.Sound limit)
    (readable : List.Forall₂ (fun a text => Readable source a.2 text) asked texts)
    (separators : ∀ b ∈ gap, isSeparator b) (stream : s.input.Streams (gap ++ lineOf texts))
    (room : s.heap.strings.size + newStringsOf asked ≤ Registry.ceiling s.heap.strings.limit)
    (takes : s.output.Takes (promptsOf asked).length) :
    let final := s.after (asking asked)
    List.Forall₂ (ReadsBack source final.heap) asked (s.observations (asking asked)) ∧
      (∀ g string, s.heap.string g = .ok string → final.heap.string g = .ok string) ∧
      final.output.written = s.output.written ++ promptsOf asked ∧
      (asked ≠ [] → final.input.Streams [0x20, 0x0A]) := by
  induction readable generalizing s gap with
  | nil => exact ⟨.nil, fun _ _ found => found, (List.append_nil _).symm, fun some => absurd rfl some⟩
  | cons first rest ih =>
    rename_i a text asked texts
    obtain ⟨prompt, item⟩ := a
    have readable : Readable source item text := first
    rw [newStringsOf_cons] at room
    rw [promptsOf_cons, List.length_append] at takes
    rw [lineOf_cons] at stream
    obtain ⟨v, t, called, gives, more, streamed, shown, left⟩ :=
      call_of_readable sound readable separators stream (by omega) takes
    have space : ∀ b ∈ ([0x20] : Bytes), isSeparator b := by
      intro b member
      rw [List.mem_singleton.mp member]
      rfl
    have others : t.heap.strings.size + newStringsOf asked ≤
        Registry.ceiling t.heap.strings.limit := by
      rw [more.size, more.limit]
      omega
    obtain ⟨answers, kept, written, unread⟩ := ih space streamed others left
    have observed : s.observations (asking ((prompt, item) :: asked)) =
        ⟨.value (.ok v) [], t.heap, t.output, t.input.unread⟩ :: t.observations (asking asked) := by
      simp only [asking, List.map_cons, observations, called]
    have final : s.after (asking ((prompt, item) :: asked)) = t.after (asking asked) := by
      simp only [asking, List.map_cons, after, called]
    simp only [observed, final]
    refine ⟨.cons ⟨v, rfl, gives, gives.mono kept⟩ answers, ?_, ?_, ?_⟩
    · intro g string found
      exact kept g string (more.kept g string found)
    · rw [written, shown, promptsOf_cons, List.append_assoc]
    · intro _
      cases asked with
      | nil =>
        cases rest
        exact streamed
      | cons a asked => exact unread (List.cons_ne_nil a asked)

theorem exists_texts (readable : ∀ a ∈ asked, ∃ text, Readable source a.2 text) :
    ∃ texts, List.Forall₂ (fun a text => Readable source a.2 text) asked texts := by
  induction asked with
  | nil => exact ⟨[], .nil⟩
  | cons a rest ih =>
    obtain ⟨text, first⟩ := readable a List.mem_cons_self
    obtain ⟨texts, others⟩ := ih fun b member => readable b (List.mem_cons_of_mem a member)
    exact ⟨text :: texts, .cons first others⟩

/-- A line of integers and of live strings that are words, read back item by item. Printing it succeeds
and adds its bytes to the output. On any input of these bytes, with any prompts and on any heap with
room for the strings, each read succeeds at the first attempt and gives back its item; only the
prompts are written, and the last space and the line feed stay unread. -/
theorem printed_line_reads_back (allocator : Allocator) (limit : Option Nat) (ops : List Heap.Operation)
    (asked : List (Bytes × TypeTag × Value)) :
    let source := (Heap.empty allocator limit).after ops
    (∀ a ∈ asked, ∃ text, Readable source a.2 text) →
    ∃ line : Bytes,
      (∀ out : Output, out.Takes line.length →
        ∃ next, printItems source out (asked.map (·.2)) = (.ok (), next) ∧
          next.written = out.written ++ line) ∧
      ∀ s : Session, s.input.Streams line →
        s.heap.strings.size + newStringsOf asked ≤ Registry.ceiling s.heap.strings.limit →
        s.output.Takes (promptsOf asked).length →
        let final := s.after (asking asked)
        List.Forall₂ (ReadsBack source final.heap) asked (s.observations (asking asked)) ∧
          final.output.written = s.output.written ++ promptsOf asked ∧
          (asked ≠ [] → final.input.unread = [0x20, 0x0A]) := by
  intro source readable
  have sound : source.Sound limit := (Heap.sound_empty allocator limit).after ops
  obtain ⟨texts, all⟩ := exists_texts readable
  refine ⟨lineOf texts, ?_, ?_⟩
  · intro out takes
    exact printItems_of_readable (List.forall₂_map_left_iff.mpr all) takes
  · intro s stream room takes final
    have none : ∀ b ∈ ([] : Bytes), isSeparator b := by simp
    obtain ⟨answers, _, written, unread⟩ := readsBack_of_streams sound all none stream room takes
    exact ⟨answers, written, fun some => (unread some).unread⟩

/-- The least integer and a string that is no UTF-8, read back onto the heap that they came from, with just
enough room for the prompts. -/
theorem printed_line_reads_back_once :
    let asked : List (Bytes × TypeTag × Value) :=
      [([], .int, .int Int64.minValue), ([0x3F], .string, .string ⟨0, 0⟩)]
    let source := (Heap.empty .addressable none).after [.createString [0xFF, 0x2D]]
    (∀ a ∈ asked, ∃ text, Readable source a.2 text) ∧
      ∃ next, printItems source (.empty none false) (asked.map (·.2)) = (.ok (), next) ∧
        let s : Session := ⟨source, [.data next.written], .empty (some 40) false⟩
        List.Forall₂ (ReadsBack source (s.after (asking asked)).heap) asked
            (s.observations (asking asked)) ∧
          (s.after (asking asked)).input.unread = [0x20, 0x0A] := by
  intro asked source
  have isWord : IsWord [0xFF, 0x2D] := ⟨List.cons_ne_nil _ _, by simp [isSeparator]⟩
  have readable : ∀ a ∈ asked, ∃ text, Readable source a.2 text := by
    intro a member
    rcases List.mem_cons.mp member with rfl | later
    · exact ⟨_, .int _⟩
    · obtain rfl := List.mem_singleton.mp later
      exact ⟨_, .string _ rfl isWord⟩
  have exactly : (Output.empty (some 40) false).Takes (promptsOf asked).length := by
    apply Output.takes_ofLimit rfl
    decide
  have room : source.strings.size + newStringsOf asked ≤ Registry.ceiling source.strings.limit := by
    decide
  obtain ⟨line, printed, reads⟩ :=
    printed_line_reads_back .addressable none [.createString [0xFF, 0x2D]] asked readable
  have unlimited (count : Nat) : (Output.empty none false).Takes count := by
    apply Output.takes_ofLimit rfl
    rintro most ⟨⟩
  obtain ⟨next, success, written⟩ := printed (.empty none false) (unlimited _)
  obtain rfl : next.written = line := written
  have stream : Input.Streams [.data next.written] next.written := ⟨0, by simp⟩
  obtain ⟨answers, _, unread⟩ :=
    reads ⟨source, [.data next.written], .empty (some 40) false⟩ stream room exactly
  exact ⟨readable, next, success, answers, unread (List.cons_ne_nil _ _)⟩

end Session
end ScriptHost
