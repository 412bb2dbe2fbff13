import TypedQuery.Number.Binary.Reading
/-!
The shortest decimal text of a binary floating-point value.

Of all decimals that read back as the value, the one with the fewest digits is written, and
of two with equally many the nearer. A candidate is taken only after reading it back, and
the exact expansion stands behind all of them, so what is written always reads back.
-/
namespace TypedQuery
namespace Number
namespace Binary

variable {f : BinaryFormat}

/-- The digits of `n` as a number of places. -/
def digitCount (n : Nat) : Nat := (Nat.toDigits 10 n).length

/-- `num / den` lies below ten to this power, and not below ten to the power before it. -/
def magnitude (num den : Nat) : Int :=
  let gap : Int := (digitCount num : Int) - digitCount den
  let reaches : Bool :=
    if gap < 0 then den ≤ num * tenTo gap.natAbs else den * tenTo gap.natAbs ≤ num
  if reaches then gap + 1 else gap

/-- `num / den` in units of ten to the power `exponent`, as a ratio again. -/
def inUnits (num den : Nat) (exponent : Int) : Nat × Nat :=
  if exponent < 0 then (num * tenTo exponent.natAbs, den) else (num, den * tenTo exponent.natAbs)

/-- The neighbours of `num / den` on the grid of multiples of ten to the power `exponent`,
nearest first; the upper one goes first when both are equally near. -/
def neighbours (negative : Bool) (num den : Nat) (exponent : Int) : List Numeral :=
  let (n, d) := inUnits num den exponent
  let lower : Numeral := { negative := negative, coefficient := n / d, exponent := exponent }
  let upper : Numeral := { lower with coefficient := n / d + 1 }
  if 2 * (n % d) < d then [lower, upper] else [upper, lower]

/-- All digits of `mantissa * 2 ^ shift` smallest steps: a step is a power of one half, and
so a power of five over a power of ten. -/
def exactNumeral (f : BinaryFormat) (negative : Bool) (mantissa shift : Nat) : Numeral :=
  { negative := negative,
    coefficient := mantissa <<< shift * Nat.pow 5 f.fractionBits,
    exponent := -f.fractionBits }

/-- The decimal a finite value is written as: grids are tried from the coarsest on. As many
digits as the mantissa has bits are more than ever needed. -/
def shortest (f : BinaryFormat) (negative : Bool) (mantissa shift : Nat)
    (h : f.Canonical mantissa shift) : Numeral :=
  let num := mantissa <<< shift
  let den := 1 <<< f.fractionBits
  let places := magnitude num den
  let readsBack (x : Numeral) : Bool :=
    (ofNumeral x : Binary f) = .finite negative mantissa shift h
  ((List.range f.precision).findSome? fun n =>
    (neighbours negative num den (places - (n + 1 : Nat))).find? readsBack).getD
      (exactNumeral f negative mantissa shift)

/-- A positive number without its trailing zeros, and how many they were. -/
def stripZeros : Nat → Nat → Nat × Nat
  | 0, n => (n, 0)
  | fuel + 1, n =>
    if n % 10 = 0 then
      let (stripped, count) := stripZeros fuel (n / 10)
      (stripped, count + 1)
    else (n, 0)

/-- Digits of a positive decimal with the point behind the first `places` of them. At least
one digit stands on either side of the point. -/
def positional (digits : List Char) (places : Int) : List Char :=
  if places ≤ 0 then
    ['0', '.'] ++ List.replicate places.natAbs '0' ++ digits
  else
    let whole := digits.take places.natAbs
    let fraction := digits.drop places.natAbs
    whole ++ List.replicate (places.natAbs - digits.length) '0' ++
      '.' :: (if fraction.isEmpty then ['0'] else fraction)

/-- One digit before the point and the others behind it, then the power of ten. -/
def exponential (digits : List Char) (places : Int) : List Char :=
  let power := places - 1
  digits.take 1 ++ (if digits.length ≤ 1 then [] else '.' :: digits.drop 1) ++
    'e' :: (if power < 0 then ['-'] else []) ++ Nat.toDigits 10 power.natAbs

/-- Positional from one ten-thousandth up to, and not including, ten to the sixteenth;
exponent form beyond. -/
def numeralText (x : Numeral) : List Char :=
  let (coefficient, zeros) := stripZeros (digitCount x.coefficient) x.coefficient
  let digits := Nat.toDigits 10 coefficient
  let places : Int := digits.length + (x.exponent + zeros)
  (if x.negative then ['-'] else []) ++
    if -3 ≤ places ∧ places ≤ 16 then positional digits places else exponential digits places

def text : Binary f → List Char
  | .nan => ['N', 'a', 'N']
  | .infinite negative => (if negative then ['-'] else []) ++ ['i', 'n', 'f']
  | .finite negative mantissa shift h =>
    if mantissa = 0 then (if negative then ['-'] else []) ++ ['0', '.', '0']
    else numeralText (shortest f negative mantissa shift h)

end Binary
end Number
end TypedQuery
