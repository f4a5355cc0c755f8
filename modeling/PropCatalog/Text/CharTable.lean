/-!
# Tables of code points

A class of characters is given by the increasing list of code points at which membership changes:
a code point belongs to the class when an odd number of these bounds are at most it.
-/

namespace PropCatalog
namespace Text

/-- The number of entries of the increasing array `bounds` in `[lo, hi)` that are at most `n`,
plus `lo`. -/
def rankBetween (bounds : Array Nat) (n lo hi : Nat) : Nat :=
  if lo < hi then
    let mid := (lo + hi) / 2
    if bounds.getD mid 0 ≤ n then rankBetween bounds n (mid + 1) hi
    else rankBetween bounds n lo mid
  else lo
termination_by hi - lo
decreasing_by all_goals omega

/-- Membership in the class whose changes are listed by `bounds`. -/
def inTable (bounds : Array Nat) (n : Nat) : Bool :=
  rankBetween bounds n 0 bounds.size % 2 == 1

end Text
end PropCatalog
