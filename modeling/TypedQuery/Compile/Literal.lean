import TypedQuery.Expr.Value
import TypedQuery.Number.Binary.Reading
import TypedQuery.Number.Decimal.Reading
/-!
Number literals of the query language.

A suffix fixes the type of a literal. Without one, a literal takes the numeric type that its
place expects, if it is a number of that type, and otherwise the smallest type it fits.
-/
namespace TypedQuery

open Number

/-- A suffix, by the type that it fixes. -/
inductive Suffix where
  | decimal | int64 | single | double
deriving DecidableEq, Repr

namespace Suffix

def ofChar? (c : Char) : Option Suffix :=
  match c.toLower with
  | 'm' => some .decimal
  | 'l' => some .int64
  | 'f' => some .single
  | 'd' => some .double
  | _ => none

def type : Suffix → Ty
  | .decimal => .decimal
  | .int64 => .int64
  | .single => .single
  | .double => .double

end Suffix

/-- The text of a number without its suffix, the suffix, and the value both denote. -/
structure NumberLiteral where
  body : List Char
  suffix? : Option Suffix
  value : Value
deriving Repr

namespace NumberLiteral

/-- Whether a text is written with a fraction or an exponent. -/
def isFractional (body : List Char) : Bool :=
  body.any fun c => c = '.' || c = 'e' || c = 'E'

/-- A whole number in the first of the two integral types that holds it. -/
def readWhole? (body : List Char) : Option Value :=
  (Text.readInt? body).bind fun n =>
    (Value.ofInt? .int32 n).orElse fun _ => Value.ofInt? .int64 n

/-- The value of a text under a suffix. -/
def readSuffixed? (suffix : Suffix) (body : List Char) : Option Value :=
  match suffix with
  | .decimal => (Decimal.read? body).map .decimal
  | .int64 => (Text.readInt? body).bind (Value.ofInt? .int64)
  | .single => (Binary.readFinite? body).map .single
  | .double => (Binary.readFinite? body).map .double

/-- The value of a text without a suffix. -/
def readPlain? (body : List Char) : Option Value :=
  if isFractional body then (Binary.readFinite? body).map .double else readWhole? body

/-- The text and the suffix at its end, if it has one. -/
def split (text : List Char) : List Char × Option Suffix :=
  match text.getLast?.bind Suffix.ofChar? with
  | some suffix => (text.dropLast, some suffix)
  | none => (text, none)

def read? (text : List Char) : Option NumberLiteral :=
  let (body, suffix?) := split text
  if body.isEmpty then none
  else
    (match suffix? with
      | some suffix => readSuffixed? suffix body
      | none => readPlain? body).map fun value =>
        { body := body, suffix? := suffix?, value := value }

/-- The literal as a constant of another type. What is written as a whole number has to be
one of that type; a fraction may be rounded to it. -/
def as? (literal : NumberLiteral) (target : Ty) : Option Value :=
  if !isFractional literal.body then literal.value.convert? target
  else
    match target with
    | .single => (Binary.readFinite? literal.body).map .single
    | .double => (Binary.readFinite? literal.body).map .double
    | .decimal => (Decimal.read? literal.body).map .decimal
    | _ => none

/-- The constant that the literal is where `expected` is wanted. -/
def valueFor (literal : NumberLiteral) (expected : Option Ty) : Value :=
  match expected with
  | some target =>
    if target.isNumeric && literal.suffix?.isNone then (literal.as? target).getD literal.value
    else literal.value
  | none => literal.value

end NumberLiteral
end TypedQuery
