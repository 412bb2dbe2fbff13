import TypedQuery.Text.Digits
/-!
Numerals in positional or exponent form, read exactly and before any rounding.
-/
namespace TypedQuery
namespace Number

/-- Ten to the power `n`. -/
def tenTo (n : Nat) : Nat := Nat.pow 10 n

/-- `± coefficient * 10 ^ exponent`. -/
structure Numeral where
  negative : Bool
  coefficient : Nat
  exponent : Int
deriving DecidableEq, Repr

namespace Numeral

/-- The sign before a numeral, and what follows it. -/
def readSign : List Char → Bool × List Char
  | '-' :: rest => (true, rest)
  | '+' :: rest => (false, rest)
  | rest => (false, rest)

/-- What may follow the digits: nothing, or `e` and a whole number. -/
def readExponent? : List Char → Option Int
  | [] => some 0
  | 'e' :: rest | 'E' :: rest => Text.readInt? rest
  | _ => none

/-- The digits before and behind the point, and what follows them. The point may be the
first or the last character, but a digit must stand on one side of it. -/
def readDigits (cs : List Char) : List Char × List Char × List Char :=
  let (whole, rest) := Text.spanDigits cs
  match rest with
  | '.' :: rest => (whole, Text.spanDigits rest)
  | _ => (whole, [], rest)

def read? (cs : List Char) : Option Numeral :=
  let (negative, cs) := readSign cs
  let (whole, fraction, rest) := readDigits cs
  if whole.isEmpty && fraction.isEmpty then none
  else (readExponent? rest).map fun e =>
    { negative := negative,
      coefficient := Nat.ofDigitChars 10 (whole ++ fraction) 0,
      exponent := e - (fraction.length : Int) }

/-- How many decimal places lie before the point: the magnitude is below ten to this power. -/
def places (x : Numeral) : Int :=
  (Nat.toDigits 10 x.coefficient).length + x.exponent

end Numeral
end Number
end TypedQuery
