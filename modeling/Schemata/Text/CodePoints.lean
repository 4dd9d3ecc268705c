/-!
# Sets of characters

A set of characters is a list of inclusive ranges of code points.
-/

namespace Schemata

/-- Inclusive ranges of code points, in increasing order. -/
abbrev CodePoints := List (Nat × Nat)

namespace CodePoints

def contains (ranges : CodePoints) (c : Char) : Bool :=
  ranges.any fun r => r.1 ≤ c.toNat && c.toNat ≤ r.2

end CodePoints

end Schemata
