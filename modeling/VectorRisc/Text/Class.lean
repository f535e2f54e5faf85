/-
Module: VectorRisc.Text.Class
Layer: Text
Purpose: Classes of code points. A class is the list of its edges: the code points at which membership
  changes, in rising order, starting outside.
Imports: none
Trusted boundary: none
Main exports: Text.Class, Text.Class.contains
Open obligations: none
-/

namespace VectorRisc

namespace Text

/-- A class of code points by its edges. The first edge is the first member, the second the first code
    point after it that is none, and so on. -/
structure Class where
  edges : List Nat
deriving DecidableEq, Repr, Inhabited

namespace Class

/-- A code point is in the class if it has an odd number of edges at or below it. -/
def contains (c : Class) (code : Nat) : Bool := c.edges.countP (· ≤ code) % 2 = 1

end Class

end Text

end VectorRisc
