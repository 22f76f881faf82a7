import ScriptHost.Process.Basic

/-! The calls that a program makes of its host, and whole programs: a program ends at the first
call that fails, with the cause on its output. -/
namespace ScriptHost

open Utf8 (Bytes)

inductive Call where
  | init
  | cleanUp
  /-- Like `cleanUp`, but with the numbers of released objects as the answer. -/
  | cleanUpCounts
  /-- Drops the heap; the next operation that needs one starts anew. -/
  | takeHeap
  | stats
  /-- The bytes up to the first zero; without bytes, the empty string. -/
  | createString (bytes : Option Bytes)
  | concatStrings (a b : UInt64)
  | stringBytes (h : UInt64)
  | newList (length : Int64)
  | fillNext (h : UInt64) (value : RawValue)
  | append (h : UInt64) (value : RawValue)
  | listGet (h : UInt64) (index : Int64)
  | listSlice (h : UInt64) (start stop : Int64)
  | listLength (h : UInt64)
  /-- Without a prompt, the default prompt of the type. -/
  | input (prompt : Option Bytes) (tag : UInt8)
  /-- Prints the first `count` of the items. -/
  | print (count : Int64) (items : Option (List RawValue))
  | printValue (tag : TypeTag) (value : Value)

inductive Reply where
  | nothing
  | released (strings lists : Nat)
  /-- The limit and the number of live strings of a dropped heap, if there was one. -/
  | dropped (heap : Option (Option Nat × Nat))
  | stats (stats : HeapStats)
  | handle (bits : UInt64)
  | bytes (bytes : Bytes)
  | raw (value : RawValue)
  | length (count : Nat)
  deriving DecidableEq

namespace Process

def createString (p : Process) (bytes : Bytes) : Outcome StringHandle × Process :=
  p.withHeap (·.createString bytes) stringEvents

def concatenationEvents (h : StringHandle) (heap : Heap) : List LogEvent :=
  match heap.string h with
  | .ok s => [.concatenationPooled h.index s.length]
  | .error _ => []

def concatStrings (p : Process) (a b : StringHandle) : Outcome StringHandle × Process :=
  p.withHeap (·.concatStrings a b) concatenationEvents

def listEvents (h : ListHandle) (heap : Heap) : List LogEvent :=
  match heap.listLength h with
  | .ok capacity => [.listRegistered h.index capacity]
  | .error _ => []

def newList (p : Process) (length : Int64) : Outcome ListHandle × Process :=
  p.withHeap (·.newListChecked length) listEvents

def listSlice (p : Process) (h : ListHandle) (start stop : Int64) : Outcome ListHandle × Process :=
  p.withHeap (·.listSlice h start stop) listEvents

/-- Decodes a raw value before the heap is looked at. -/
def storing (p : Process) (value : RawValue) (operation : Heap → Value → Outcome Unit × Heap) :
    Outcome Unit × Process :=
  match value.decode with
  | .error e => (.error e, p)
  | .ok v => p.withHeap (operation · v) fun _ _ => []

/-- The prompt of a read; there is none for a type that cannot be read and has no default. -/
def promptFor (prompt : Option Bytes) (tag : TypeTag) : Outcome Bytes :=
  match prompt with
  | some bytes => .ok (bytes.takeWhile (· != 0))
  | none => Utf8.ofString <$> tag.defaultPrompt

def ask (p : Process) (prompt : Option Bytes) (tag : UInt8) : Outcome Value × Process :=
  match TypeTag.ofByte tag with
  | .error e => (.error e, p)
  | .ok tag =>
    match promptFor prompt tag with
    | .error e => (.error e, p)
    | .ok prompt => p.read prompt tag

def printRaw (p : Process) (raws : List RawValue) : Outcome Unit × Process :=
  match raws.mapM RawValue.toItem with
  | .error e => (.error e, p)
  | .ok items => p.print items

def answer {α : Type} (reply : α → Reply) : Outcome α × Process → Outcome Reply × Process
  | (result, p) => (result.map reply, p)

def takeHeap (p : Process) : Option (Option Nat × Nat) × Process :=
  (p.live.map fun live => (live.maxObjects, live.heap.stats.stringsLive), { p with live := none })

def call (p : Process) : Call → Outcome Reply × Process
  | .init => (.ok .nothing, p.demandHeap.2)
  | .cleanUp => (.ok .nothing, p.cleanUp.2)
  | .cleanUpCounts =>
    let ((strings, lists), p) := p.cleanUp
    (.ok (.released strings lists), p)
  | .takeHeap =>
    let (dropped, p) := p.takeHeap
    (.ok (.dropped dropped), p)
  | .stats => answer .stats (p.onHeap fun heap => .ok heap.stats)
  | .createString bytes => answer (.handle ·.toBits) (p.createString (bytes.getD []))
  | .concatStrings a b =>
    answer (.handle ·.toBits) (p.concatStrings (.ofBits a) (.ofBits b))
  | .stringBytes h => answer .bytes (p.onHeap (·.stringUntilZero (.ofBits h)))
  | .newList length => answer (.handle ·.toBits) (p.newList length)
  | .fillNext h value =>
    answer (fun _ => .nothing) (p.storing value (·.fillNext (.ofBits h)))
  | .append h value => answer (fun _ => .nothing) (p.storing value (·.append (.ofBits h)))
  | .listGet h index => answer (.raw ·.encode) (p.onHeap (·.listGet (.ofBits h) index))
  | .listSlice h start stop =>
    answer (.handle ·.toBits) (p.listSlice (.ofBits h) start stop)
  | .listLength h => answer .length (p.onHeap (·.listLength (.ofBits h)))
  | .input prompt tag => answer (.raw ·.encode) (p.ask prompt tag)
  | .print count items =>
    answer (fun _ => .nothing) (p.printRaw ((items.getD []).take count.toInt.toNat))
  | .printValue tag value => answer (fun _ => .nothing) (p.print [(tag, value)])

/-- Ends a program: the cause is logged, and is the last line of the output. -/
def abort (p : Process) (cause : RuntimeError) : Process :=
  let p := p.log (.fatal cause)
  { p with output := (p.output.write (Utf8.ofString (cause.diagnostic ++ "\n"))).2 }

end Process

structure Execution where
  replies : List Reply
  /-- The error that ended the program early, if one did. -/
  failure : Option RuntimeError
  final : Process

namespace Execution

def exitStatus (e : Execution) : Nat := if e.failure.isSome then 1 else 0

/-- Runs calls in order up to the first failure. -/
def run (p : Process) : List Call → Execution
  | [] => ⟨[], none, p⟩
  | c :: rest =>
    match p.call c with
    | (.error e, p) => ⟨[], some e, p.abort e⟩
    | (.ok reply, p) =>
      let later := run p rest
      { later with replies := reply :: later.replies }

end Execution
end ScriptHost
