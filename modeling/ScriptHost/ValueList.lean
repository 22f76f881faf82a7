import ScriptHost.Value

/-! Lists of values. A list is created with a number of slots that wait for initial values; once
all of them are filled it is ready, and can be read and appended to. -/
namespace ScriptHost

/-- Grants room for a number of slots at once. Between the small numbers and those that no memory holds it
decides as it likes. -/
structure Allocator where
  grants : Nat → Bool
  grants_small : ∀ capacity < 100000, grants capacity
  refuses_huge : ∀ capacity ≥ 1 <<< 59, ¬ grants capacity

/-- A slot takes 16 bytes; this allocator grants less than 2^63 bytes together. -/
def Allocator.addressable : Allocator where
  grants capacity := 16 * capacity < 0x8000000000000000
  grants_small capacity small := by
    rw [decide_eq_true_eq]
    omega
  refuses_huge capacity huge := by
    rw [decide_eq_true_eq]
    simp only [Nat.reduceShiftLeft] at huge
    omega

structure ValueList where
  items : Array Value
  /-- The full length, slots that still wait included. -/
  length : Nat
  pending : Nat
  deriving Repr

namespace ValueList

inductive State where
  | constructing
  | ready
  deriving DecidableEq, Repr

def State.name : State → String
  | .constructing => "Constructing"
  | .ready => "Ready"

def ofCapacity (allocator : Allocator) (capacity : Nat) : Outcome ValueList :=
  if allocator.grants capacity then .ok ⟨#[], capacity, capacity⟩
  else .error (.capacityExhausted .list)

def state (l : ValueList) : State := if l.pending = 0 then .ready else .constructing

def isReady (l : ValueList) : Bool := l.pending == 0

def isEmpty (l : ValueList) : Bool := l.length == 0

def checkReady (l : ValueList) : Outcome Unit :=
  if l.pending = 0 then .ok () else .error (.initIncomplete l.length l.pending)

def fillNext (v : Value) (l : ValueList) : Outcome Unit × ValueList :=
  if l.pending = 0 then (.error (.initOverflow l.length), l)
  else (.ok (), { l with items := l.items.push v, pending := l.pending - 1 })

def append (v : Value) (l : ValueList) : Outcome Unit × ValueList :=
  match l.checkReady with
  | .error e => (.error e, l)
  | .ok () => (.ok (), { l with items := l.items.push v, length := l.length + 1 })

def position? (l : ValueList) (index : Int64) : Option Nat :=
  if 0 ≤ index.toInt ∧ index.toInt < l.length then some index.toInt.toNat else none

def get (l : ValueList) (index : Int64) : Outcome Value := do
  l.checkReady
  let outOfBounds := RuntimeError.indexOutOfBounds index l.length
  if index.toInt < 0 then .error outOfBounds
  else match l.items[index.toInt.toNat]? with
    | some v => .ok v
    | none => .error outOfBounds

/-- The values from `start` to `stop`, both included. The start is checked before the end, and
the end before the order of the two. -/
def range (l : ValueList) (start stop : Int64) : Outcome (List Value) := do
  l.checkReady
  match l.position? start with
  | none => .error (.sliceStartOutOfBounds start l.length)
  | some low =>
    match l.position? stop with
    | none => .error (.sliceEndOutOfBounds stop l.length)
    | some high =>
      if high < low then .error (.sliceReversed start stop)
      else .ok (l.items.extract low (high + 1)).toList

def values (l : ValueList) : Outcome (List Value) := do
  l.checkReady
  return l.items.toList

/-- Equal values in order, and the same lengths. -/
def equal (a b : ValueList) : Bool :=
  a.length == b.length && a.pending == b.pending && a.items.size == b.items.size &&
    (a.items.toList.zip b.items.toList).all fun (x, y) => x.equal y

/-- Every slot that does not wait holds a value. -/
def WellFormed (l : ValueList) : Prop := l.items.size + l.pending = l.length

theorem fillNext_of_pending {l : ValueList} (waiting : l.pending ≠ 0) (v : Value) :
    l.fillNext v = (.ok (), { l with items := l.items.push v, pending := l.pending - 1 }) := by
  simp [fillNext, waiting]

theorem fillNext_of_ready {l : ValueList} (ready : l.pending = 0) (v : Value) :
    l.fillNext v = (.error (.initOverflow l.length), l) := by
  simp [fillNext, ready]

theorem append_of_ready {l : ValueList} (ready : l.pending = 0) (v : Value) :
    l.append v = (.ok (), { l with items := l.items.push v, length := l.length + 1 }) := by
  simp [append, checkReady, ready]

theorem append_of_pending {l : ValueList} (waiting : l.pending ≠ 0) (v : Value) :
    l.append v = (.error (.initIncomplete l.length l.pending), l) := by
  simp [append, checkReady, waiting]

theorem fillNext_wellFormed {l : ValueList} (wf : l.WellFormed) (v : Value) :
    (l.fillNext v).2.WellFormed := by
  unfold fillNext
  split
  · exact wf
  · simp only [WellFormed, Array.size_push] at wf ⊢; omega

theorem append_wellFormed {l : ValueList} (wf : l.WellFormed) (v : Value) :
    (l.append v).2.WellFormed := by
  unfold append
  split
  · exact wf
  · simp only [WellFormed, Array.size_push] at wf ⊢; omega

theorem position?_of_inside {l : ValueList} {index : Int64}
    (inside : 0 ≤ index.toInt ∧ index.toInt < l.length) :
    l.position? index = some index.toInt.toNat := if_pos inside

theorem position?_of_outside {l : ValueList} {index : Int64}
    (outside : ¬ (0 ≤ index.toInt ∧ index.toInt < l.length)) : l.position? index = none :=
  if_neg outside

theorem get_eq_ok_iff {l : ValueList} {index : Int64} {v : Value} :
    l.get index = .ok v ↔
      l.pending = 0 ∧ 0 ≤ index.toInt ∧ l.items[index.toInt.toNat]? = some v := by
  by_cases ready : l.pending = 0
  · have checked : l.checkReady = .ok () := if_pos ready
    by_cases negative : index.toInt < 0
    · have outside : ¬ 0 ≤ index.toInt := Int.not_le.mpr negative
      simp [get, checked, negative, outside, bind, Except.bind]
    · simp only [get, checked, if_neg negative]
      cases found : l.items[index.toInt.toNat]? <;>
        simp [bind, Except.bind, ready, Int.not_lt.mp negative]
  · simp [get, checkReady, ready, bind, Except.bind]

/-- A range is read from a ready list with both ends inside and in order, and from no other. -/
theorem range_eq_ok_iff {l : ValueList} {start stop : Int64} {values : List Value} :
    l.range start stop = .ok values ↔
      l.pending = 0 ∧ (0 ≤ start.toInt ∧ start.toInt ≤ stop.toInt ∧ stop.toInt < l.length) ∧
        values = (l.items.extract start.toInt.toNat (stop.toInt.toNat + 1)).toList := by
  by_cases ready : l.pending = 0
  · have checked : l.checkReady = .ok () := if_pos ready
    by_cases low : 0 ≤ start.toInt ∧ start.toInt < l.length
    · by_cases high : 0 ≤ stop.toInt ∧ stop.toInt < l.length
      · have order : stop.toInt.toNat < start.toInt.toNat ↔ ¬ start.toInt ≤ stop.toInt := by omega
        simp only [range, checked, position?_of_inside low, position?_of_inside high, order]
        by_cases sorted : start.toInt ≤ stop.toInt
        · simp [bind, Except.bind, ready, low, high, sorted, eq_comm]
        · simp [bind, Except.bind, sorted]
      · simp only [range, checked, position?_of_inside low, position?_of_outside high]
        simp [bind, Except.bind]
        omega
    · simp only [range, checked, position?_of_outside low]
      simp [bind, Except.bind]
      omega
  · simp [range, checkReady, ready, bind, Except.bind]

theorem length_of_range {l : ValueList} (wf : l.WellFormed) {start stop : Int64}
    {values : List Value} (read : l.range start stop = .ok values) :
    values.length = stop.toInt.toNat + 1 - start.toInt.toNat := by
  obtain ⟨ready, inside, rfl⟩ := range_eq_ok_iff.mp read
  rw [WellFormed, ready] at wf
  have within : stop.toInt.toNat + 1 ≤ l.items.size := by omega
  rw [Array.length_toList, Array.size_extract, Nat.min_eq_left within]

/-- A range holds what the list answers for every index in it. -/
theorem get_of_range {l : ValueList} (wf : l.WellFormed) {start stop : Int64} {values : List Value}
    (read : l.range start stop = .ok values) {index : Int64} (low : start.toInt ≤ index.toInt)
    (high : index.toInt ≤ stop.toInt) :
    ∃ v, values[(index.toInt - start.toInt).toNat]? = some v ∧ l.get index = .ok v := by
  have length := length_of_range wf read
  obtain ⟨ready, inside, rfl⟩ := range_eq_ok_iff.mp read
  rw [WellFormed, ready] at wf
  have bound : index.toInt.toNat < l.items.size := by omega
  have place : start.toInt.toNat + (index.toInt - start.toInt).toNat = index.toInt.toNat := by omega
  have within : (index.toInt - start.toInt).toNat <
      min (stop.toInt.toNat + 1) l.items.size - start.toInt.toNat := by omega
  refine ⟨l.items[index.toInt.toNat], ?_, get_eq_ok_iff.mpr ⟨ready, by omega, ?_⟩⟩
  · rw [Array.getElem?_toList, Array.getElem?_extract, if_pos within, place]
    exact Array.getElem?_eq_getElem bound
  · exact Array.getElem?_eq_getElem bound

end ValueList
end ScriptHost
