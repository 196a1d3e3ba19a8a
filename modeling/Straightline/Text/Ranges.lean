/-!
# Ranges of characters

A class of characters is given by the closed ranges of code points it is made of, in increasing
order.  The classes of this folder decide ASCII by a rule of their own and use ranges beyond it, so
that a proof about program text in ASCII never has to open a table.
-/

namespace Straightline.Text

/-- Closed ranges of code points, in increasing order. -/
abbrev Ranges := List (Nat × Nat)

/-- Whether `c` lies in one of the ranges. -/
def Ranges.contains (rs : Ranges) (c : Char) : Bool :=
  rs.any fun r => r.1 ≤ c.toNat && c.toNat ≤ r.2

end Straightline.Text
