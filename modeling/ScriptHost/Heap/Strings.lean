import ScriptHost.Heap.Basic

/-! The string operations of a heap. An operation that may change the heap answers with the heap
behind it, also when it fails. -/
namespace ScriptHost.Heap

open Utf8 (Bytes)

def createString (heap : Heap) (bytes : Bytes) : Outcome StringHandle × Heap :=
  let (result, strings) := heap.strings.register (.ofBytes bytes)
  (result, { heap with strings })

def string (heap : Heap) (h : StringHandle) : Outcome PooledString := heap.strings.get h

/-- The concatenation of two strings, not yet on the heap. -/
def joined (heap : Heap) (a b : StringHandle) : Outcome PooledString := do
  let left ← heap.string a
  let right ← heap.string b
  return left.append right

def concatStrings (heap : Heap) (a b : StringHandle) : Outcome StringHandle × Heap :=
  match heap.joined a b with
  | .error e => (.error e, heap)
  | .ok s =>
    let (result, strings) := heap.strings.register s
    (result, { heap with strings })

def stringBytes (heap : Heap) (h : StringHandle) : Outcome Bytes :=
  PooledString.bytes <$> heap.string h

def lossyText (heap : Heap) (h : StringHandle) : Outcome String :=
  PooledString.lossy <$> heap.string h

/-- What a reader of the buffer finds that stops at its first zero byte. -/
def stringUntilZero (heap : Heap) (h : StringHandle) : Outcome Bytes :=
  PooledString.untilZero <$> heap.string h

variable {heap : Heap}

theorem createString_of_isFull (full : heap.strings.isFull) (bytes : Bytes) :
    heap.createString bytes = (.error (.capacityExhausted .string), heap) := by
  simp only [createString, Registry.register_of_isFull full]

theorem createString_of_not_isFull (room : ¬ heap.strings.isFull) (bytes : Bytes) :
    heap.createString bytes = (.ok heap.strings.nextHandle,
      { heap with strings := (heap.strings.register (.ofBytes bytes)).2 }) := by
  simp only [createString, Registry.register_of_not_isFull room]

theorem concatStrings_of_error {a b : StringHandle} {e : RuntimeError}
    (unread : heap.joined a b = .error e) : heap.concatStrings a b = (.error e, heap) := by
  simp only [concatStrings, unread]

theorem concatStrings_of_isFull {a b : StringHandle} {s : PooledString}
    (read : heap.joined a b = .ok s) (full : heap.strings.isFull) :
    heap.concatStrings a b = (.error (.capacityExhausted .string), heap) := by
  simp only [concatStrings, read, Registry.register_of_isFull full]

theorem concatStrings_of_not_isFull {a b : StringHandle} {s : PooledString}
    (read : heap.joined a b = .ok s) (room : ¬ heap.strings.isFull) :
    heap.concatStrings a b = (.ok heap.strings.nextHandle,
      { heap with strings := (heap.strings.register s).2 }) := by
  simp only [concatStrings, read, Registry.register_of_not_isFull room]

end ScriptHost.Heap
