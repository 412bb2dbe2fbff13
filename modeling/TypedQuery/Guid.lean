import TypedQuery.Text.Digits
/-!
Globally unique identifiers in their hyphenated hexadecimal form.
-/
namespace TypedQuery

/-- A 128-bit identifier. -/
structure Guid where
  bits : BitVec 128
deriving DecidableEq, Repr

namespace Guid

/-- The identifier of all zeros. -/
def nil : Guid := { bits := 0 }

/-- Lengths of the groups between the hyphens, in hexadecimal digits. -/
def groupLengths : List Nat := [8, 4, 4, 4, 12]

/-- The low four bits of `n` as a digit, lower case. -/
def hexDigit (n : Nat) : Char := Nat.digitChar (n % 16)

/-- The last `count` hexadecimal digits of `n`, the most significant first. -/
def hexDigits : Nat → Nat → List Char
  | 0, _ => []
  | count + 1, n => hexDigits count (n / 16) ++ [hexDigit n]

/-- Cut a list into pieces of the given lengths. -/
def cut : List Nat → List Char → List (List Char)
  | [], _ => []
  | n :: lengths, cs => cs.take n :: cut lengths (cs.drop n)

/-- 32 digits in five groups. -/
def text (g : Guid) : List Char :=
  ['-'].intercalate (cut groupLengths (hexDigits 32 g.bits.toNat))

/-- The groups of a text, if they have the right lengths. -/
def groups? (cs : List Char) : Option (List (List Char)) :=
  let groups := cs.splitOn '-'
  if groups.map List.length = groupLengths then some groups else none

/-- The identifier that a text denotes. Its 32 digits are 128 bits, so none of them is lost. -/
def read? (cs : List Char) : Option Guid := do
  let groups ← groups? cs
  let value ← Text.readHex? groups.flatten
  some { bits := BitVec.ofNat 128 value }

/-- A text that was to be an identifier and is none. -/
structure Malformed where
  input : String
deriving DecidableEq, Repr

def Malformed.message (e : Malformed) : String :=
  "`" ++ e.input ++ "` is not a valid guid"

def parse (input : String) : Except Malformed Guid :=
  match read? input.toList with
  | some g => .ok g
  | none => .error { input := input }

theorem length_hexDigits (count n : Nat) : (hexDigits count n).length = count := by
  induction count generalizing n with
  | zero => rfl
  | succ count ih => simp [hexDigits, ih]

end Guid
end TypedQuery
