import TypedQuery.Number.Numeral
/-!
Decimal numbers of 96 bits: a coefficient and a count of fraction digits.

The count is kept as it was written, so `1.50` and `1.5` are two decimals of one value.
-/
namespace TypedQuery
namespace Number

/-- Two to the power 96, below which all coefficients are. -/
def Decimal.limit : Nat := 1 <<< 96

/-- `± coefficient / 10 ^ scale`. A sign may stand before zero: it is left over where rounding
took all other digits of a negative number away. -/
structure Decimal where
  negative : Bool
  coefficient : Nat
  scale : Nat
  coefficient_lt : coefficient < Decimal.limit
  scale_le : scale ≤ 28
deriving DecidableEq, Repr

namespace Decimal

/-- The decimal of these parts, if they are in range. -/
def ofParts? (negative : Bool) (coefficient scale : Nat) : Option Decimal :=
  if h : coefficient < limit ∧ scale ≤ 28 then
    some {
      negative := negative,
      coefficient := coefficient,
      scale := scale,
      coefficient_lt := h.1,
      scale_le := h.2 }
  else none

def ofInt? (n : Int) : Option Decimal := ofParts? (decide (n < 0)) n.natAbs 0

/-- Equality of values: both coefficients brought to the sum of the scales. The sign of zero
does not count. -/
def same (a b : Decimal) : Bool :=
  (a.negative == b.negative || a.coefficient == 0) &&
    a.coefficient * tenTo b.scale == b.coefficient * tenTo a.scale

/-- All fraction digits the scale asks for, and at least one digit before the point. -/
def text (x : Decimal) : List Char :=
  let digits := Text.padded (x.scale + 1) x.coefficient
  let whole := digits.take (digits.length - x.scale)
  let fraction := digits.drop (digits.length - x.scale)
  (if x.negative then ['-'] else []) ++ whole ++
    (if x.scale = 0 then [] else '.' :: fraction)

/-- A whole number of at most 96 bits is a decimal of scale zero. -/
theorem ofInt?_isSome {n : Int} (h : n.natAbs < limit) : (ofInt? n).isSome = true := by
  unfold ofInt? ofParts?
  rw [dif_pos ⟨h, Nat.zero_le 28⟩]
  rfl

end Decimal
end Number
end TypedQuery
