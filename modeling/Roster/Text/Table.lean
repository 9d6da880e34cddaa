-- Tables of characters.

namespace Roster.Text

-- Ranges of code points in ascending order, both ends included.
abbrev Table := List (Nat × Nat)

def Table.covers (t : Table) (c : Char) : Bool :=
  t.any fun r => r.1 ≤ c.toNat && c.toNat ≤ r.2

end Roster.Text
