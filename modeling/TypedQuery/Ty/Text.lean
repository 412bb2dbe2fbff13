import TypedQuery.Ty.Basic
/-!
How types are written in messages, graphs and casts.
-/
namespace TypedQuery

def Primitive.name : Primitive → String
  | .bool => "Bool"
  | .byte => "Byte"
  | .int16 => "Int16"
  | .int32 => "Int32"
  | .int64 => "Int64"
  | .single => "Single"
  | .double => "Double"
  | .decimal => "Decimal"
  | .char => "Char"
  | .string => "String"
  | .guid => "Guid"
  | .dateTime => "DateTime"
  | .object => "Object"
  | .null => "Null"

/-- `T` and `M` tell the two origins apart. -/
def Placeholder.text (p : Placeholder) : String :=
  match p.origin with
  | .declaring => "T" ++ toString p.index
  | .method => "M" ++ toString p.index

namespace Ty

mutual
def text : Ty → String
  | .primitive p => p.name
  | .enum d => d.name
  | .entity name => name
  | .array t => t.text ++ "[]"
  | .applied c ts => c.name ++ "<" ++ ", ".intercalate (texts ts) ++ ">"
  | .function ps r => "(" ++ ", ".intercalate (texts ps) ++ ") -> " ++ r.text
  | .quoted t => "Expression<" ++ t.text ++ ">"
  | .placeholder p => p.text
  | .wildcard => "?"

def texts : List Ty → List String
  | [] => []
  | t :: ts => t.text :: texts ts
end

theorem texts_eq_map (ts : List Ty) : texts ts = ts.map text := by
  induction ts with
  | nil => rfl
  | cons t ts ih => rw [texts, ih, List.map_cons]

/-- The types of a list, separated by commas. -/
def listText (ts : List Ty) : String := ", ".intercalate (ts.map text)

end Ty
end TypedQuery
