import ScriptHost.PooledString
import ScriptHost.Registry
import ScriptHost.ValueList

/-! The heap of a program: one log of strings and one of lists, with the same limit on each, and the allocator
of the lists' slots. -/
namespace ScriptHost

structure Heap where
  strings : Registry .string PooledString
  lists : Registry .list ValueList
  allocator : Allocator

structure HeapStats where
  stringsLive : Nat
  listsLive : Nat
  stringsAllocated : Nat
  listsAllocated : Nat
  stringBytes : Nat
  listElements : Nat
  releases : Nat
  deriving DecidableEq, Repr

namespace Heap

def empty (allocator : Allocator) (limit : Option Nat) : Heap := ⟨.empty limit, .empty limit, allocator⟩

/-- Releases all strings; the answer is their number. -/
def releaseStrings (heap : Heap) : Nat × Heap :=
  let (released, strings) := heap.strings.release
  (released.length, { heap with strings })

def releaseLists (heap : Heap) : Nat × Heap :=
  let (released, lists) := heap.lists.release
  (released.length, { heap with lists })

def releaseAll (heap : Heap) : (Nat × Nat) × Heap :=
  let (strings, heap) := heap.releaseStrings
  let (lists, heap) := heap.releaseLists
  ((strings, lists), heap)

def releaseAllTimes (heap : Heap) (n : Nat) : Heap :=
  ⟨heap.strings.releaseTimes n, heap.lists.releaseTimes n, heap.allocator⟩

/-- A list counts with its full length, waiting slots included; a release counts once both kinds
have seen it. -/
def stats (heap : Heap) : HeapStats where
  stringsLive := heap.strings.size
  listsLive := heap.lists.size
  stringsAllocated := heap.strings.allocated
  listsAllocated := heap.lists.allocated
  stringBytes := heap.strings.toList.foldl (fun total s => total + s.length) 0
  listElements := heap.lists.toList.foldl (fun total l => total + l.length) 0
  releases := min heap.strings.releases heap.lists.releases

theorem releaseAllTimes_succ (heap : Heap) (n : Nat) :
    heap.releaseAllTimes (n + 1) = (heap.releaseAllTimes n).releaseAll.2 := by
  simp only [releaseAllTimes, Registry.releaseTimes_succ]
  rfl

end Heap
end ScriptHost
