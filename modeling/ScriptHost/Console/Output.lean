import ScriptHost.Error
import ScriptHost.Text.Utf8

/-! Console output: the bytes written so far, and the sink that takes them. A sink answers every call anew,
from all that it was given before; a write succeeds as a whole or writes nothing. -/
namespace ScriptHost

open Utf8 (Bytes)

/-- How a sink answers a call, behind so many calls and behind the bytes written by them. -/
structure Sink where
  /-- Why the bytes of a write are refused, if they are. -/
  refusal? : Nat → Bytes → Bytes → Option String
  /-- Why a flush fails, if it does. -/
  fault? : Nat → Bytes → Option String

namespace Sink

/-- Has room for so many bytes, if there is a limit. Its flushes all fail, or none does. -/
def ofLimit (limit : Option Nat) (flushFails : Bool) : Sink where
  refusal? _ written bytes :=
    if limit.all (written.length + bytes.length ≤ ·) then none else some "sink full"
  fault? _ _ := if flushFails then some "flush failed" else none

/-- A reason that the sink has for some write or some flush. -/
def Gives (sink : Sink) (reason : String) : Prop :=
  (∃ calls written bytes, sink.refusal? calls written bytes = some reason) ∨
    ∃ calls written, sink.fault? calls written = some reason

end Sink

structure Output where
  sink : Sink
  /-- The writes and flushes so far, failed ones included. -/
  calls : Nat
  buffer : Array UInt8

namespace Output

def ofSink (sink : Sink) : Output := ⟨sink, 0, #[]⟩

def empty (limit : Option Nat) (flushFails : Bool) : Output := ofSink (.ofLimit limit flushFails)

def written (out : Output) : Bytes := out.buffer.toList

/-- The output behind so many more calls, which wrote these bytes. -/
def adding (out : Output) (calls : Nat) (bytes : Bytes) : Output :=
  { out with calls := out.calls + calls, buffer := out.buffer ++ bytes }

/-- Why these bytes would be refused now. -/
def refusal? (out : Output) (bytes : Bytes) : Option String :=
  out.sink.refusal? out.calls out.written bytes

def write (out : Output) (bytes : Bytes) : Outcome Unit × Output :=
  match out.refusal? bytes with
  | some reason => (.error (.io reason), out.adding 1 [])
  | none => (.ok (), out.adding 1 bytes)

def flush (out : Output) : Outcome Unit × Output :=
  match out.sink.fault? out.calls out.written with
  | some reason => (.error (.io reason), out.adding 1 [])
  | none => (.ok (), out.adding 1 [])

/-- Writes the parts in order, each by itself, then flushes; stops at the first failure. -/
def writeAndFlush (out : Output) : List Bytes → Outcome Unit × Output
  | [] => out.flush
  | part :: parts =>
    match out.write part with
    | (.error e, out) => (.error e, out)
    | (.ok (), out) => out.writeAndFlush parts

variable {out next : Output} {bytes : Bytes} {e : RuntimeError}

@[simp] theorem sink_adding (out : Output) (calls : Nat) (bytes : Bytes) :
    (out.adding calls bytes).sink = out.sink := rfl

@[simp] theorem written_adding (out : Output) (calls : Nat) (bytes : Bytes) :
    (out.adding calls bytes).written = out.written ++ bytes := by
  simp [adding, written]

@[simp] theorem adding_adding (out : Output) (calls more : Nat) (first second : Bytes) :
    (out.adding calls first).adding more second = out.adding (calls + more) (first ++ second) := by
  have buffers : out.buffer ++ first ++ second = out.buffer ++ (first ++ second) := by
    apply Array.toList_inj.mp
    simp
  simp only [adding, buffers, Nat.add_assoc]

@[simp] theorem adding_zero (out : Output) : out.adding 0 [] = out := by
  simp [adding]

/-- A write that succeeds adds its bytes behind all others. -/
theorem eq_adding_of_write_ok (done : out.write bytes = (.ok (), next)) : next = out.adding 1 bytes := by
  unfold write at done
  split at done
  · cases done
  · exact (congrArg Prod.snd done).symm

/-- A write that fails writes nothing. -/
theorem written_of_write_error (failed : out.write bytes = (.error e, next)) :
    next.written = out.written := by
  unfold write at failed
  split at failed
  · cases failed
    rw [written_adding, List.append_nil]
  · cases failed

theorem written_flush (out : Output) : out.flush.2.written = out.written := by
  unfold flush
  split
  · rw [written_adding, List.append_nil]
  · rw [written_adding, List.append_nil]

/-- The sink takes so many more bytes, in any writes, and lets them be flushed. -/
structure Takes (out : Output) (count : Nat) : Prop where
  room : ∀ calls more bytes, more.length + bytes.length ≤ count →
    out.sink.refusal? (out.calls + calls) (out.written ++ more) bytes = none
  flushes : ∀ calls more, more.length ≤ count →
    out.sink.fault? (out.calls + calls) (out.written ++ more) = none

theorem Takes.adding {count : Nat} (takes : out.Takes (bytes.length + count)) (calls : Nat) :
    (out.adding calls bytes).Takes count := by
  constructor
  · intro later more others fits
    have room := takes.room (calls + later) (bytes ++ more) others (by rw [List.length_append]; omega)
    rw [sink_adding, written_adding, List.append_assoc]
    exact Nat.add_assoc .. ▸ room
  · intro later more fits
    have flushes := takes.flushes (calls + later) (bytes ++ more) (by rw [List.length_append]; omega)
    rw [sink_adding, written_adding, List.append_assoc]
    exact Nat.add_assoc .. ▸ flushes

theorem Takes.write {count : Nat} (takes : out.Takes (bytes.length + count)) :
    out.write bytes = (.ok (), out.adding 1 bytes) := by
  have room := takes.room 0 [] bytes (by rw [List.length_nil]; omega)
  rw [List.append_nil] at room
  have accepted : out.refusal? bytes = none := room
  rw [Output.write, accepted]

theorem Takes.flush {count : Nat} (takes : out.Takes count) : out.flush = (.ok (), out.adding 1 []) := by
  have flushes := takes.flushes 0 [] (Nat.zero_le count)
  rw [List.append_nil] at flushes
  simp only [Nat.add_zero] at flushes
  simp only [Output.flush, flushes]

theorem Takes.writeAndFlush {parts : List Bytes} {count : Nat}
    (takes : out.Takes (parts.flatten.length + count)) :
    out.writeAndFlush parts = (.ok (), out.adding (parts.length + 1) parts.flatten) := by
  induction parts generalizing out with
  | nil => exact takes.flush
  | cons part parts ih =>
    rw [List.flatten_cons, List.length_append, Nat.add_assoc] at takes
    simp only [Output.writeAndFlush, takes.write, ih (takes.adding 1), adding_adding, List.flatten_cons,
      List.length_cons]
    rw [Nat.add_comm 1]

/-- What a sink with a limit takes. -/
theorem takes_ofLimit {limit : Option Nat} {count : Nat} (bounded : out.sink = .ofLimit limit false)
    (room : ∀ most ∈ limit, out.written.length + count ≤ most) : out.Takes count := by
  constructor
  · intro calls more bytes fits
    rw [bounded]
    apply if_pos
    rw [Option.all_eq_true]
    intro most member
    have bound := room most member
    rw [List.length_append, decide_eq_true_eq]
    omega
  · intro calls more fits
    rw [bounded]
    rfl

end Output
end ScriptHost
