/-!
Sets of characters given by ranges of code points, the form in which the Unicode
standard publishes its properties.
-/
namespace TypedQuery
namespace Text

/-- Ranges of code points, both ends included. -/
abbrev RangeTable := List (Nat × Nat)

def RangeTable.contains (table : RangeTable) (c : Char) : Bool :=
  table.any fun range => range.1 ≤ c.toNat && c.toNat ≤ range.2

end Text
end TypedQuery
