/-!
# Sets of characters as ranges

A set of code points is a list of closed ranges in increasing order.
-/

namespace ViewTree.Text

/-- Closed ranges of code points. -/
abbrev Ranges := List (Nat × Nat)

/-- Whether the character lies in one of the ranges. -/
def Ranges.has (table : Ranges) (c : Char) : Bool :=
  table.any fun r => r.1 ≤ c.toNat && c.toNat ≤ r.2

end ViewTree.Text
