import Mathlib.Logic.Function.Basic
import ScriptHost.Proofs.HeapInvariant

/-! How the strings of a heap came about: from bytes that were handed in, each cut at its first zero, and
by joining strings. The account of a run tells the bytes of every live string, and from them its
buffer. -/
namespace ScriptHost

open Utf8 (Bytes)

theorem Registry.get_register {kind : ObjectKind} {α : Type} {r : Registry kind α}
    (room : ¬ r.isFull) (a : α) (h : Handle kind) :
    (r.register a).2.get h = if h = r.nextHandle then .ok a else r.get h := by
  split
  · next new =>
    rw [new]
    exact get_nextHandle room a
  · next old =>
    by_cases live : r.Resolves h
    · obtain ⟨b, found⟩ := get_of_resolves live
      rw [found]
      exact get_register_of_get found a
    · have stale : ¬ (r.register a).2.Resolves h := by
        rw [resolves_register room]
        rintro (reached | new)
        · exact live reached
        · exact old new
      rw [get_of_not_resolves stale, get_of_not_resolves live]

theorem Registry.get_release {kind : ObjectKind} {α : Type} (r : Registry kind α) (h : Handle kind) :
    r.release.2.get h = .error (.staleHandle kind) :=
  get_of_not_resolves fun live => Nat.not_lt_zero _ live.2

namespace Heap

inductive Making where
  | given (bytes : Bytes)
  | joined (first second : Making)

namespace Making

def leaves : Making → List Bytes
  | .given bytes => [bytes]
  | .joined first second => first.leaves ++ second.leaves

/-- The leaves in order, each up to its first zero. -/
def text (m : Making) : Bytes := m.leaves.flatMap fun bytes => bytes.takeWhile (· != 0)

def string (m : Making) : PooledString := ⟨m.text ++ [0]⟩

@[simp] theorem bytes_string (m : Making) : m.string.bytes = m.text := by
  simp [string, PooledString.bytes]

theorem string_given (bytes : Bytes) : (given bytes).string = .ofBytes bytes := by
  simp [string, text, leaves, PooledString.ofBytes]

theorem string_joined (first second : Making) :
    (joined first second).string = first.string.append second.string := by
  have text : (joined first second).text = first.text ++ second.text := by
    simp [text, leaves]
  rw [string, text, PooledString.append, bytes_string, bytes_string]

end Making

/-- What the live strings were made of, by their handles. -/
abbrev Makings := StringHandle → Option Making

namespace Makings

def start : Makings := fun _ => none

def source? (m : Makings) : Operation → Option Making
  | .createString bytes | .parseToken .string bytes => some (.given bytes)
  | .readTyped input _ _ .string => input.readToken.1.toOption.map .given
  | .concatStrings a b => do return .joined (← m a) (← m b)
  | _ => none

/-- A release ends all strings. A new handle stands for what its operation was made of. -/
def record (m : Makings) (e : Event) : Makings :=
  if e.operation.releases .string then start
  else
    match e.result.toOption.bind (Answer.issued? .string) with
    | none => m
    | some h => Function.update m h (m.source? e.operation)

def of (events : List Event) : Makings := events.foldl record start

/-- The strings are those of the account. -/
def Agrees (m : Makings) (heap : Heap) : Prop :=
  ∀ h, (heap.string h).toOption = (m h).map Making.string

variable {m : Makings} {heap : Heap} {op : Operation}

theorem agrees_start (allocator : Allocator) (limit : Option Nat) :
    start.Agrees (empty allocator limit) := by
  intro h
  have gone : (empty allocator limit).string h = .error (.staleHandle .string) :=
    Registry.get_of_not_resolves fun live => Nat.not_lt_zero _ live.2
  rw [gone]
  rfl

theorem Agrees.eq_some (agrees : m.Agrees heap) {h : StringHandle} {s : PooledString}
    (found : heap.string h = .ok s) : ∃ making, m h = some making ∧ making.string = s := by
  have same := agrees h
  rw [found] at same
  exact Option.map_eq_some_iff.mp same.symm

/-- The string that an operation would create has the making that the account would record. -/
theorem Agrees.source (agrees : m.Agrees heap) {s : PooledString}
    (makes : heap.stringToCreate? op = some s) : (m.source? op).map Making.string = some s := by
  cases op with
  | createString bytes =>
    cases makes
    exact congrArg some (Making.string_given bytes)
  | concatStrings a b =>
    obtain ⟨left, right, first, second, rfl⟩ := joined_eq_ok (eq_ok_of_toOption makes)
    obtain ⟨x, recorded, rfl⟩ := agrees.eq_some first
    obtain ⟨y, alsoRecorded, rfl⟩ := agrees.eq_some second
    simp only [source?, recorded, alsoRecorded]
    exact congrArg some (Making.string_joined x y)
  | parseToken tag token =>
    obtain ⟨rfl, rfl⟩ := stringToCreate?_parseToken makes
    exact congrArg some (Making.string_given token)
  | readTyped input output prompt tag =>
    obtain ⟨rfl, token, word, rfl⟩ := stringToCreate?_readTyped makes
    obtain ⟨suffix, out, rest, _, _, read⟩ := wordRead?_eq_some_iff.mp word
    simp only [source?, read]
    exact congrArg some (Making.string_given token)
  | _ => cases makes

theorem record_of_silent (kept : op.releases .string = false) {result : Outcome Answer}
    (silent : ∀ h : StringHandle, ¬ Issues result h) : m.record ⟨op, result⟩ = m := by
  have unissued : result.toOption.bind (Answer.issued? .string) = none := by
    cases result with
    | error e => rfl
    | ok a =>
      apply Option.eq_none_iff_forall_ne_some.mpr
      intro h issued
      exact silent h (issues_ok_iff.mpr issued)
  simp only [record, kept, Bool.false_eq_true, if_false, unissued]

theorem record_of_issued (kept : op.releases .string = false) {a : Answer} {h : StringHandle}
    (issued : a.issued? .string = some h) :
    m.record ⟨op, .ok a⟩ = Function.update m h (m.source? op) := by
  have answered : (Except.toOption (.ok a : Outcome Answer)).bind (Answer.issued? .string) = some h :=
    issued
  simp only [record, kept, Bool.false_eq_true, if_false, answered]

theorem Agrees.perform (agrees : m.Agrees heap) (op : Operation) :
    (m.record ⟨op, (heap.perform op).1⟩).Agrees (heap.perform op).2 := by
  intro h
  cases releases : op.releases .string with
  | true =>
    have gone : (heap.perform op).2.string h = .error (.staleHandle .string) := by
      rw [string, strings_of_releases releases]
      exact Registry.get_release heap.strings h
    rw [gone, record, if_pos releases]
    rfl
  | false =>
    cases makes : heap.stringToCreate? op with
    | none =>
      rw [record_of_silent releases (silent_of_no_string makes), string,
        strings_of_no_string makes releases]
      exact agrees h
    | some s =>
      by_cases full : heap.strings.isFull
      · rw [perform_of_full_strings makes full, record_of_silent releases (not_issues_error _)]
        exact agrees h
      · obtain ⟨a, performed, issued⟩ := perform_of_room_strings makes full
        rw [performed, record_of_issued releases issued, string,
          Registry.get_register full]
        by_cases new : h = heap.strings.nextHandle
        · subst new
          rw [if_pos rfl, Function.update_self, agrees.source makes]
          rfl
        · rw [if_neg new, Function.update_of_ne new]
          exact agrees h

theorem Agrees.after (agrees : m.Agrees heap) (ops : List Operation) :
    ((heap.events ops).foldl record m).Agrees (heap.after ops) := by
  induction ops generalizing m heap with
  | nil => exact agrees
  | cons op rest ih => exact ih (agrees.perform op)

end Makings

variable {limit : Option Nat} {heap : Heap}

theorem stringBytes_of_string {h : StringHandle} {s : PooledString} (found : heap.string h = .ok s) :
    heap.stringBytes h = .ok s.bytes := stringBytes_eq_ok_iff.mpr ⟨s, found, rfl⟩

theorem Makings.Agrees.text {m : Makings} (agrees : m.Agrees heap) (h : StringHandle) :
    (heap.stringBytes h).toOption = (m h).map Making.text := by
  have same := agrees h
  cases found : heap.string h with
  | error e =>
    rw [found] at same
    rw [Option.map_eq_none_iff.mp same.symm, stringBytes, found]
    rfl
  | ok s =>
    obtain ⟨making, recorded, rfl⟩ := agrees.eq_some found
    rw [stringBytes_of_string found, recorded, Making.bytes_string]
    rfl

/-- The strings of a heap behind any operations: exactly those of the account are live, and each has the
bytes of its leaves, cut at their zeros; joining strings changes none; every buffer is the bytes with
the only zero behind them, so that all views of a string show the same bytes, and strings are equal
if their bytes are. -/
theorem strings_are_their_leaves (allocator : Allocator) (limit : Option Nat) (ops : List Operation) :
    let heap := (empty allocator limit).after ops
    let makings := Makings.of ((empty allocator limit).events ops)
    (∀ h, (heap.stringBytes h).toOption = (makings h).map Making.text) ∧
    (∀ a b h bytes, heap.stringBytes h = .ok bytes →
      (heap.concatStrings a b).2.stringBytes h = .ok bytes) ∧
    (∀ h s, heap.string h = .ok s →
      s.buffer = s.bytes ++ [0] ∧ 0 ∉ s.bytes ∧ s.zeroTerminated? = some s.bytes ∧
      heap.stringBytes h = .ok s.bytes ∧ heap.stringUntilZero h = .ok s.bytes ∧
      s.length = s.bytes.length) ∧
    (∀ g h s t, heap.string g = .ok s → heap.string h = .ok t → (s = t ↔ s.bytes = t.bytes)) := by
  intro heap makings
  have agrees : makings.Agrees heap := (Makings.agrees_start allocator limit).after ops
  have sound : heap.Sound limit := (sound_empty allocator limit).after ops
  refine ⟨agrees.text, ?_, ?_, ?_⟩
  · intro a b h bytes read
    obtain ⟨s, found, rfl⟩ := stringBytes_eq_ok_iff.mp read
    have kept : (Operation.concatStrings a b).releases .string = false := rfl
    exact stringBytes_of_string (string_of_kept found kept)
  · intro h s found
    have wf := sound.string found
    have untilZero : heap.stringUntilZero h = .ok s.bytes := by
      rw [stringUntilZero, found, ← wf.untilZero_eq]
      rfl
    exact ⟨wf.1, wf.2, wf.zeroTerminated?_eq, stringBytes_of_string found, untilZero,
      s.length_bytes.symm⟩
  · intro g h s t first second
    exact (sound.string first).eq_iff (sound.string second)

/-- A string joined with itself and cut at a zero, beside a list that comes and goes. -/
theorem strings_are_their_leaves_once :
    let ops : List Operation := [.createString [0x61, 0x00, 0x62], .concatStrings ⟨0, 0⟩ ⟨0, 0⟩,
      .newList 1, .createString [0xFF], .releaseLists, .concatStrings ⟨1, 0⟩ ⟨2, 0⟩]
    let heap := (empty .addressable none).after ops
    heap.string ⟨3, 0⟩ = .ok ⟨[0x61, 0x61, 0xFF, 0x00]⟩ ∧
      heap.stringUntilZero ⟨3, 0⟩ = .ok [0x61, 0x61, 0xFF] ∧
      (heap.concatStrings ⟨3, 0⟩ ⟨3, 0⟩).2.stringBytes ⟨3, 0⟩ = .ok [0x61, 0x61, 0xFF] := by
  intro ops heap
  obtain ⟨_, operands, views, _⟩ := strings_are_their_leaves .addressable none ops
  have found : heap.string ⟨3, 0⟩ = .ok ⟨[0x61, 0x61, 0xFF, 0x00]⟩ := rfl
  obtain ⟨_, _, _, bytes, untilZero, _⟩ := views _ _ found
  exact ⟨found, untilZero, operands _ _ _ _ bytes⟩

end Heap
end ScriptHost
