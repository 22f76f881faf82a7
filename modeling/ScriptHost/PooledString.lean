import ScriptHost.Text.Escape
import ScriptHost.Text.Utf8

/-! Byte strings in a buffer that ends with a zero byte. No other byte of the buffer is zero. -/
namespace ScriptHost

open Utf8 (Bytes)

structure PooledString where
  buffer : Bytes
  deriving DecidableEq, Repr

namespace PooledString

/-- Keeps the bytes in front of the first zero. -/
def ofBytes (bytes : Bytes) : PooledString := ⟨bytes.takeWhile (· != 0) ++ [0]⟩

def bytes (s : PooledString) : Bytes := s.buffer.dropLast

def append (a b : PooledString) : PooledString := ⟨a.bytes ++ b.bytes ++ [0]⟩

def length (s : PooledString) : Nat := s.buffer.length - 1

def isEmpty (s : PooledString) : Bool := s.length == 0

/-- What a reader that stops at the first zero byte finds. -/
def untilZero (s : PooledString) : Bytes := s.buffer.takeWhile (· != 0)

/-- The bytes, provided that the only zero in the buffer is its last byte. -/
def zeroTerminated? (s : PooledString) : Option Bytes :=
  if s.buffer = s.untilZero ++ [0] then some s.untilZero else none

def lossy (s : PooledString) : String := String.ofList (Utf8.decodeLossy s.bytes)

/-- The text between double quotes, special characters escaped. -/
def inspect (s : PooledString) : String :=
  String.ofList ("PoolString(\"".toList ++ Escape.ofText Escape.quoted s.lossy.toList ++ "\")".toList)

/-- The buffer ends with a zero byte and holds no other. -/
def WellFormed (s : PooledString) : Prop := s.buffer = s.bytes ++ [0] ∧ 0 ∉ s.bytes

@[simp] theorem bytes_ofBytes (bytes : Bytes) : (ofBytes bytes).bytes = bytes.takeWhile (· != 0) := by
  simp [ofBytes, PooledString.bytes]

@[simp] theorem bytes_append (a b : PooledString) : (a.append b).bytes = a.bytes ++ b.bytes := by
  simp [append, PooledString.bytes]

theorem takeWhile_append_of_nonzero {front : Bytes} (nonzero : 0 ∉ front) (rest : Bytes) :
    (front ++ rest).takeWhile (· != 0) = front ++ rest.takeWhile (· != 0) := by
  apply List.takeWhile_append_of_pos
  intro b member
  have other : b ≠ 0 := fun zero => nonzero (zero ▸ member)
  simpa using other

theorem bytes_ofBytes_of_nonzero {bytes : Bytes} (nonzero : 0 ∉ bytes) : (ofBytes bytes).bytes = bytes := by
  have whole := takeWhile_append_of_nonzero nonzero []
  rwa [List.append_nil, List.takeWhile_nil, List.append_nil, ← bytes_ofBytes] at whole

theorem ofBytes_wellFormed (bytes : Bytes) : (ofBytes bytes).WellFormed := by
  refine ⟨by simp [ofBytes, PooledString.bytes], ?_⟩
  intro member
  rw [bytes_ofBytes] at member
  simpa using List.all_eq_true.mp List.all_takeWhile 0 member

theorem append_wellFormed {a b : PooledString} (ha : a.WellFormed) (hb : b.WellFormed) :
    (a.append b).WellFormed := by
  refine ⟨by simp [append, PooledString.bytes], ?_⟩
  simp [ha.2, hb.2]

theorem length_bytes (s : PooledString) : s.bytes.length = s.length := by
  simp [PooledString.bytes, length]

variable {s t : PooledString}

/-- A reader that stops at the first zero finds all bytes of the string. -/
theorem WellFormed.untilZero_eq (wf : s.WellFormed) : s.untilZero = s.bytes := by
  rw [untilZero, wf.1, takeWhile_append_of_nonzero wf.2]
  simp [PooledString.bytes]

theorem WellFormed.zeroTerminated?_eq (wf : s.WellFormed) : s.zeroTerminated? = some s.bytes := by
  rw [zeroTerminated?, wf.untilZero_eq, if_pos wf.1]

theorem WellFormed.eq_iff (left : s.WellFormed) (right : t.WellFormed) : s = t ↔ s.bytes = t.bytes := by
  constructor
  · intro same
    rw [same]
  · intro same
    have buffers : s.buffer = t.buffer := by rw [left.1, right.1, same]
    exact congrArg PooledString.mk buffers

end PooledString
end ScriptHost
