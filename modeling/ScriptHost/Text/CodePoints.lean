/-! Sets of characters as closed ranges of code points, in ascending order. -/
namespace ScriptHost

/-- No range is empty, and each ends below the one behind it. -/
def isAscending : List (Nat × Nat) → Bool
  | [] => true
  | [(low, high)] => low ≤ high
  | (low, high) :: (next, last) :: rest =>
    low ≤ high && high < next && isAscending ((next, last) :: rest)

structure CodePoints where
  ranges : List (Nat × Nat)
  ascending : isAscending ranges := by decide +kernel

namespace CodePoints

def contains (set : CodePoints) (c : Char) : Bool :=
  set.ranges.any fun (low, high) => low ≤ c.toNat && c.toNat ≤ high

end CodePoints
end ScriptHost
