import TypedQuery.DateTime
import TypedQuery.Guid
import TypedQuery.Number.Binary.Shortest
import TypedQuery.Number.Decimal
import TypedQuery.Text.Quoted
import TypedQuery.Ty.Text
/-!
Constants of an expression graph.
-/
namespace TypedQuery

open Number

/-- A constant. An array carries its element type, which its items need not show. -/
inductive Value where
  | null
  | bool (value : Bool)
  | integer (kind : Integral) (value : Int) (holds : kind.Holds value)
  | single (value : Binary .single)
  | double (value : Binary .double)
  | decimal (value : Decimal)
  | char (value : Char)
  | string (value : String)
  | guid (value : Guid)
  | dateTime (value : DateTime)
  | enumCase (d : EnumDef) (value : Int)
  | array (element : Ty) (items : List Value)
deriving Repr

namespace Value

def type : Value → Ty
  | .null => .null
  | .bool _ => .bool
  | .integer k _ _ => .integral k
  | .single _ => .single
  | .double _ => .double
  | .decimal _ => .decimal
  | .char _ => .char
  | .string _ => .string
  | .guid _ => .guid
  | .dateTime _ => .dateTime
  | .enumCase d _ => .enum d
  | .array t _ => .array t

/-- `n` as a constant of an integral type, if that holds it. -/
def ofInt? (k : Integral) (n : Int) : Option Value :=
  if h : k.Holds n then some (.integer k n h) else none

/-- The number that an integral constant is. -/
def int? : Value → Option Int
  | .integer _ n _ => some n
  | _ => none

def string? : Value → Option String
  | .string s => some s
  | _ => none

/-- A whole number as a constant of a numeric type, if it is one of that type's numbers. -/
def ofIntAs? (target : Ty) (n : Int) : Option Value :=
  match target with
  | .single => (Binary.ofInt? n).map .single
  | .double => (Binary.ofInt? n).map .double
  | .decimal => (Decimal.ofInt? n).map .decimal
  | t => t.integral?.bind fun k => ofInt? k n

/-- A constant as one of another type, where nothing is lost: whole numbers wherever they are
exact, and single into double precision. -/
def convert? (target : Ty) (v : Value) : Option Value :=
  if v.type = target then some v
  else
    match v with
    | .integer _ n _ => ofIntAs? target n
    | .single x => if target = .double then some (.double x.convert) else none
    | _ => none

mutual
/-- Equality of constants, which for numbers is equality of what they denote. -/
def same : Value → Value → Bool
  | .null, .null => true
  | .bool a, .bool b => a == b
  | .integer k m _, .integer l n _ => k == l && m == n
  | .single x, .single y => x.same y
  | .double x, .double y => x.same y
  | .decimal x, .decimal y => x.same y
  | .char a, .char b => a == b
  | .string a, .string b => a == b
  | .guid a, .guid b => a == b
  | .dateTime a, .dateTime b => a == b
  | .enumCase d m, .enumCase e n => d == e && m == n
  | .array t vs, .array u ws => t == u && sames vs ws
  | _, _ => false

def sames : List Value → List Value → Bool
  | [], [] => true
  | v :: vs, w :: ws => same v w && sames vs ws
  | _, _ => false
end

/-- A value of an enumeration by its name, or by its number if no case has it. -/
def enumText (d : EnumDef) (value : Int) : String :=
  match d.nameOf? value with
  | some name => d.name ++ "." ++ name
  | none => d.name ++ "(" ++ toString value ++ ")"

mutual
def text : Value → String
  | .null => "null"
  | .bool b => if b then "true" else "false"
  | .integer _ n _ => toString n
  | .single x => String.ofList x.text
  | .double x => String.ofList x.text
  | .decimal x => String.ofList x.text
  | .char c => Text.quoted '\'' [c]
  | .string s => Text.quoted '"' s.toList
  | .guid g => String.ofList g.text
  | .dateTime d => String.ofList d.literalText
  | .enumCase d n => enumText d n
  | .array _ items => "[" ++ ", ".intercalate (texts items) ++ "]"

def texts : List Value → List String
  | [] => []
  | v :: vs => v.text :: texts vs
end

theorem type_ofInt? {k : Integral} {n : Int} {v : Value} (h : ofInt? k n = some v) :
    v.type = .integral k := by
  unfold ofInt? at h
  split at h
  · obtain rfl := Option.some.inj h
    rfl
  · exact absurd h (by simp)

end Value
end TypedQuery
