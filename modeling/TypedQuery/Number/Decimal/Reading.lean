import TypedQuery.Number.Decimal
/-!
Decimal numbers from text.

Digits are taken from the left while the coefficient has room for them. The first fraction
digit without room decides the rounding, and those behind it do not count.
-/
namespace TypedQuery
namespace Number
namespace Decimal

/-- What has been read so far: the coefficient, its fraction digits, whether the point was
passed, and whether there was any digit. -/
structure Scan where
  coefficient : Nat
  scale : Nat
  pastPoint : Bool
  anyDigit : Bool

def Scan.start : Scan :=
  { coefficient := 0, scale := 0, pastPoint := false, anyDigit := false }

/-- Whether the scan holds all fraction digits that a decimal can have. -/
def Scan.isFull (s : Scan) : Bool := s.pastPoint && s.scale == 28

/-- Whether all digits but the last left room in a machine word: they are then 255 or more
below a tenth of the greatest one. -/
def Scan.isShort (s : Scan) : Bool := s.coefficient / 10 < 0xFFFFFFFFFFFFFFFF / 10 - 255

/-- The scan with one more digit, if there is room for it. -/
def Scan.push? (s : Scan) (digit : Nat) : Option Scan :=
  let coefficient := 10 * s.coefficient + digit
  if s.isFull || limit ≤ coefficient then none
  else
    some {
      coefficient := coefficient,
      scale := if s.pastPoint then s.scale + 1 else s.scale,
      pastPoint := s.pastPoint,
      anyDigit := true }

/-- Round half away from zero by the first digit dropped. Rounding up may fill the
coefficient, which then gives up one more digit; with no fraction digit left to give it is
too large. -/
def Scan.roundBy? (s : Scan) (digit : Nat) : Option (Nat × Nat) :=
  if digit < 5 then some (s.coefficient, s.scale)
  else if s.coefficient + 1 < limit then some (s.coefficient + 1, s.scale)
  else if s.scale = 0 then none
  else some ((s.coefficient + 5) / 10, s.scale - 1)

/-- What may follow where no digit counts any more. -/
def isTail (cs : List Char) : Bool := cs.all fun c => c.isDigit || c = '_'

/-- The coefficient and scale of the text. Underscores may separate digits from the first
digit on; too many digits before the point are an error. An underscore behind the last
fraction digit of a short coefficient ends the number, and no digit behind it rounds. -/
def Scan.run? (s : Scan) : List Char → Option (Nat × Nat)
  | [] => if s.anyDigit then some (s.coefficient, s.scale) else none
  | c :: rest =>
    if c.isDigit then
      let digit := c.toNat - '0'.toNat
      match s.push? digit with
      | some next => next.run? rest
      | none => if s.pastPoint && isTail rest then s.roundBy? digit else none
    else if c = '_' && s.anyDigit then
      if s.isFull && s.isShort then
        if isTail rest then some (s.coefficient, s.scale) else none
      else s.run? rest
    else if c = '.' && !s.pastPoint then Scan.run? { s with pastPoint := true } rest
    else none

/-- A decimal in positional form. A sign before zero is dropped. -/
def readPositional? (cs : List Char) : Option Decimal :=
  let (negative, rest) := Numeral.readSign cs
  (Scan.start.run? rest).bind fun (coefficient, scale) =>
    ofParts? (negative && coefficient != 0) coefficient scale

/-- `x` times a power of ten. A factor of the scale moves the point; what is left over
multiplies the coefficient, and the result is then a whole number. -/
def shiftLeft? (x : Decimal) (power : Nat) : Option Decimal :=
  if power ≤ x.scale then ofParts? x.negative x.coefficient (x.scale - power)
  else if power ≤ 28 then ofParts? x.negative (x.coefficient * tenTo (power - x.scale)) 0
  else none

/-- `n` without its last `count` digits, rounded to the nearest; a half goes up. -/
def dropDigits (count n : Nat) : Nat := (n + tenTo count / 2) / tenTo count

/-- `x` over a power of ten: as many more fraction digits, for which the last ones of `x` make
room. Its sign stays, even if only zeros are left. -/
def shiftRight? (x : Decimal) (power : Nat) : Option Decimal :=
  if power ≤ 28 then
    let kept := min x.scale (28 - power)
    ofParts? x.negative (dropDigits (x.scale - kept) x.coefficient) (kept + power)
  else none

/-- A decimal in exponent form. -/
def readExponential? (cs : List Char) : Option Decimal :=
  let isMark (c : Char) : Bool := c = 'e' || c = 'E'
  let base := cs.takeWhile (!isMark ·)
  match cs.dropWhile (!isMark ·) with
  | [] => none
  | _ :: exponent => do
    let x ← readPositional? base
    match exponent with
    | '-' :: digits => x.shiftRight? (← Text.readUnsigned? digits)
    | digits => x.shiftLeft? (← Text.readUnsigned? digits)

/-- A decimal in either form. No text has both, as the first one has no place for a mark. -/
def read? (cs : List Char) : Option Decimal :=
  (readPositional? cs).orElse fun _ => readExponential? cs

end Decimal
end Number
end TypedQuery
