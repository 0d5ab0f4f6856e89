/-
# Sets of characters as ranges

A property of characters is a table of closed ranges of code points, searched in order.
-/
namespace Statechart

/-- Closed ranges of code points. -/
abbrev CharRanges := List (Nat × Nat)

/-- Whether one of the ranges holds the character. -/
def CharRanges.contains (rs : CharRanges) (c : Char) : Bool :=
  rs.any fun (lo, hi) => lo ≤ c.toNat && c.toNat ≤ hi

end Statechart
