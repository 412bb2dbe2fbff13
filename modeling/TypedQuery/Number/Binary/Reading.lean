import TypedQuery.Number.Binary
import TypedQuery.Number.Numeral
/-!
Binary floating point from decimal text, correctly rounded.
-/
namespace TypedQuery
namespace Number
namespace Binary

variable {f : BinaryFormat}

/-- The value nearest to a numeral. A numeral far outside the format is answered from its
number of places alone, since its power of ten may be too large to write down: with more
places than the format has bits it exceeds every finite value, and with that many zeros
behind the point it lies below half a step. -/
def ofNumeral (x : Numeral) : Binary f :=
  if x.coefficient = 0 then zero x.negative
  else if x.places > f.maxShift + f.precision then .infinite x.negative
  else if x.places < -f.fractionBits then zero x.negative
  else if x.exponent < 0 then ofRatio x.negative x.coefficient (tenTo x.exponent.natAbs)
  else ofRatio x.negative (x.coefficient * tenTo x.exponent.natAbs) 1

/-- The values that have a name in place of digits; case does not matter. -/
def readName? (negative : Bool) (cs : List Char) : Option (Binary f) :=
  match String.ofList (cs.map Char.toLower) with
  | "nan" => some .nan
  | "inf" | "infinity" => some (.infinite negative)
  | _ => none

def read? (cs : List Char) : Option (Binary f) :=
  match Numeral.read? cs with
  | some x => some (ofNumeral x)
  | none =>
    let (negative, rest) := Numeral.readSign cs
    readName? negative rest

/-- Finite values only: the names are no numerals, and neither is what overflows. -/
def readFinite? (cs : List Char) : Option (Binary f) :=
  (read? cs).filter isFinite

theorem isFinite_of_readFinite? {cs : List Char} {x : Binary f} (h : readFinite? cs = some x) :
    x.isFinite = true := by
  unfold readFinite? at h
  exact (Option.filter_eq_some_iff.mp h).2

end Binary
end Number
end TypedQuery
