/-!
# Tables of character ranges

A property of characters that only a table can give is a list of ranges of code points, both ends
included.
-/

namespace Lookahead.Character

/-- ranges of code points, first and last one of each -/
abbrev Ranges := List (Nat × Nat)

def Ranges.contains (rs : Ranges) (c : Char) : Bool :=
  rs.any fun r => r.1 ≤ c.toNat && c.toNat ≤ r.2

end Lookahead.Character
