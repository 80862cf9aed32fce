/-
# Sets of code points

A property of Unicode is a set of code points, given by its ranges in increasing order.
-/
namespace SyntaxTree

/-- A set of code points as closed ranges. -/
structure CodePointSet where
  ranges : List (Nat × Nat)

namespace CodePointSet

/-- Whether a character lies in one of the ranges. -/
def contains (set : CodePointSet) (c : Char) : Bool :=
  set.ranges.any fun (low, high) => low ≤ c.toNat && c.toNat ≤ high

end CodePointSet
end SyntaxTree
