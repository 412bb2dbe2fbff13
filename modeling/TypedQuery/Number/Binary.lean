/-!
Binary floating point, on exact natural numbers.

A finite value is a mantissa shifted left, counted in the smallest step of its format, so
no exponent is ever negative and comparison, rounding and conversion are statements about
natural numbers. Core's `Float` is not used: nothing could be proved about its arithmetic.
-/
namespace TypedQuery
namespace Number

/-- A binary interchange format: bits of the mantissa, the power of two by which one is
larger than the smallest step, and the largest shift of a finite value. -/
structure BinaryFormat where
  precision : Nat
  fractionBits : Nat
  maxShift : Nat
deriving DecidableEq, Repr

namespace BinaryFormat

def single : BinaryFormat := { precision := 24, fractionBits := 149, maxShift := 253 }

def double : BinaryFormat := { precision := 53, fractionBits := 1074, maxShift := 2045 }

/-- The one way of writing a magnitude: a shifted mantissa uses all of its bits. -/
def Canonical (f : BinaryFormat) (mantissa shift : Nat) : Prop :=
  mantissa < 1 <<< f.precision ∧ shift ≤ f.maxShift ∧
    (shift = 0 ∨ 1 <<< (f.precision - 1) ≤ mantissa)

instance (f : BinaryFormat) (mantissa shift : Nat) : Decidable (f.Canonical mantissa shift) :=
  inferInstanceAs (Decidable (_ ∧ _ ∧ (_ ∨ _)))

theorem canonical_zero (f : BinaryFormat) : f.Canonical 0 0 :=
  ⟨Nat.one_shiftLeft _ ▸ Nat.two_pow_pos _, Nat.zero_le _, Or.inl rfl⟩

end BinaryFormat

/-- A value of a format. Finite values are `± mantissa * 2 ^ shift` smallest steps. -/
inductive Binary (f : BinaryFormat) where
  | nan
  | infinite (negative : Bool)
  | finite (negative : Bool) (mantissa shift : Nat) (canonical : f.Canonical mantissa shift)
deriving DecidableEq, Repr

/-- The whole number nearest to `num / den`; a half goes to the even neighbour. -/
def roundHalfEven (num den : Nat) : Nat :=
  let floor := num / den
  let rest := 2 * (num % den)
  if rest < den then floor
  else if den < rest then floor + 1
  else if floor % 2 = 0 then floor
  else floor + 1

namespace Binary

variable {f : BinaryFormat}

def zero (negative : Bool) : Binary f := .finite negative 0 0 f.canonical_zero

def isFinite : Binary f → Bool
  | .finite .. => true
  | _ => false

/-- The shift at which the whole part of `num / den` steps fits the mantissa. -/
def shiftFor (f : BinaryFormat) (num den : Nat) : Nat :=
  (num / den).log2 + 1 - f.precision

/-- The value nearest to `± num / den`, ties to the even mantissa. Rounding up may carry
into one more bit, which costs one more shift; past the largest shift lies infinity. -/
def ofRatio (negative : Bool) (num den : Nat) : Binary f :=
  let steps := num <<< f.fractionBits
  let shift := shiftFor f steps den
  let mantissa := roundHalfEven steps (den <<< shift)
  let (mantissa, shift) :=
    if mantissa = 1 <<< f.precision then (1 <<< (f.precision - 1), shift + 1)
    else (mantissa, shift)
  if h : f.Canonical mantissa shift then .finite negative mantissa shift h
  else .infinite negative

def ofInt (n : Int) : Binary f := ofRatio (decide (n < 0)) n.natAbs 1

/-- The whole number a value is, if it is one. -/
def toInt? : Binary f → Option Int
  | .finite negative mantissa shift _ =>
    let steps := mantissa <<< shift
    let whole := steps >>> f.fractionBits
    if whole <<< f.fractionBits = steps then
      some (if negative then -(whole : Int) else (whole : Int))
    else none
  | _ => none

/-- `n` in this format, if rounding leaves it as it is. -/
def ofInt? (n : Int) : Option (Binary f) :=
  let x : Binary f := ofInt n
  if x.toInt? = some n then some x else none

/-- A value carried over to another format, rounded where that one is narrower. -/
def convert {g : BinaryFormat} : Binary f → Binary g
  | .nan => .nan
  | .infinite negative => .infinite negative
  | .finite negative mantissa shift _ =>
    ofRatio negative (mantissa <<< shift) (1 <<< f.fractionBits)

/-- Equality of numbers: the two zeros are one number, and what is no number equals nothing. -/
def same : Binary f → Binary f → Bool
  | .infinite a, .infinite b => a == b
  | .finite a m s _, .finite b n t _ => m == n && s == t && (a == b || m == 0)
  | _, _ => false

theorem toInt?_of_ofInt? {n : Int} {x : Binary f} (h : ofInt? n = some x) :
    x.toInt? = some n := by
  unfold ofInt? at h
  dsimp only at h
  split at h
  · next hx =>
    obtain rfl := Option.some.inj h
    exact hx
  · exact absurd h (by simp)

end Binary
end Number
end TypedQuery
